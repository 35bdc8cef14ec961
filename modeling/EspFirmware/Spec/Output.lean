import EspFirmware.Lib.Run
import EspFirmware.Util.Log
import EspFirmware.Util.Printf

/-!
What is logged and printed.
-/

namespace EspFirmware.Spec
open Lib Util

structure LogRun where
  s : LogTags
  level : CString → LogLevel

namespace LogRun
variable (r : LogRun)

def start : LogRun := ⟨LogTags.start, fun _ => .verbose⟩

def levels : LogCall → CString → LogLevel
  | .set tag level _ => fun t => if t = tag ∨ tag = GLOBAL_TAG then level else r.level t
  | .write _ _ => r.level

def step (call : LogCall) : Option LogRun := (call.run r.s).map fun s' => ⟨s', r.levels call⟩

/-- The levels in use are the last ones set, no freed entry has been or is read, and none is left by a global setting. -/
structure FollowsSettings : Prop where
  level : ∀ tag, (r.s.esp_log_get_level tag).1 = r.level tag
  notFreed : ∀ tag, (r.s.esp_log_get_level tag).2.readFreed = false
  cleared : ∀ level a, (r.s.esp_log_level_set GLOBAL_TAG level a).s_log_uncached_tags = []

end LogRun

abbrev runLog : List LogCall → LogRun → Option LogRun := runSteps LogRun.step

def GlobalFirst (s : LogTags) : LogCall → Prop
  | .set tag _ _ => tag = GLOBAL_TAG → s.s_log_uncached_tags = []
  | .write _ _ => True

instance (s : LogTags) (call : LogCall) : Decidable (GlobalFirst s call) :=
  match call with
  | .set _ _ _ => inferInstanceAs (Decidable (_ → _))
  | .write _ _ => isTrue trivial

inductive Flag where
  | zero
  | left
  | alternate
  deriving DecidableEq, Repr

def Flag.text : Flag → BitVec 8
  | .zero => chr '0'
  | .left => chr '-'
  | .alternate => chr '#'

inductive Converted where
  | d (value : BitVec 32)
  | i (value : BitVec 32)
  | u (value : BitVec 32)
  | x (value : BitVec 32)
  | c (value : BitVec 32)
  | s (value : Option CString)
  | p (value : BitVec 32)
  deriving DecidableEq, Repr

namespace Converted

def text : Converted → BitVec 8
  | .d _ => chr 'd'
  | .i _ => chr 'i'
  | .u _ => chr 'u'
  | .x _ => chr 'x'
  | .c _ => chr 'c'
  | .s _ => chr 's'
  | .p _ => chr 'p'

def arg : Converted → VaArg
  | .d value | .i value | .u value | .x value | .c value | .p value => .word value
  | .s value => .string value

def digits (base n : Nat) : CString := (Nat.toDigits base n).map chr

def sign (alternate : Bool) : Converted → CString
  | .d value | .i value => if value.toInt < 0 then [chr '-'] else []
  | .x value => if alternate && value ≠ 0 then [chr '0', chr 'x'] else []
  | .u _ | .c _ | .s _ | .p _ => []

def body : Converted → CString
  | .d value | .i value => digits 10 value.toInt.natAbs
  | .u value => digits 10 value.toNat
  | .x value | .p value => digits 16 value.toNat
  | .c value => [value.setWidth 8]
  | .s value => value.getD ("<null>".toList.map chr)

def numeric : Converted → Bool
  | .c _ | .s _ => false
  | .d _ | .i _ | .u _ | .x _ | .p _ => true

end Converted

structure Directive where
  flags : List Flag
  width : Nat
  narrow : width < 2 ^ 8
  precision : Option (List (Fin 10))
  converted : Converted

namespace Directive
variable (d : Directive)

def text : CString :=
  d.flags.map Flag.text ++ (if d.width = 0 then [] else Converted.digits 10 d.width) ++
    (match d.precision with
    | none => []
    | some precision => chr '.' :: precision.map fun n => BitVec.ofNat 8 (n.val + 48)) ++ [d.converted.text]

def output : CString :=
  let sign := d.converted.sign (d.flags.contains .alternate)
  let body := d.converted.body
  let missing := d.width - (sign.length + body.length)
  if d.flags.contains .left then sign ++ body ++ List.replicate missing (chr ' ')
  else if d.flags.contains .zero && d.converted.numeric then sign ++ List.replicate missing (chr '0') ++ body
  else List.replicate missing (chr ' ') ++ sign ++ body

end Directive

inductive Piece where
  | literal (c : BitVec 8) (notPercent : c ≠ chr '%')
  | percent
  | directive (d : Directive)
  | lone

namespace Piece

def text : Piece → CString
  | .literal c _ => [c]
  | .percent => [chr '%', chr '%']
  | .directive d => chr '%' :: d.text
  | .lone => [chr '%']

def args : Piece → List VaArg
  | .directive d => [d.converted.arg]
  | .literal _ _ | .percent | .lone => []

def output : Piece → CString
  | .literal c _ => [c]
  | .percent => [chr '%']
  | .directive d => d.output
  | .lone => []

end Piece

def PrintsAll (pieces : List Piece) : Prop :=
  ets_vprintf (pieces.flatMap Piece.text) (pieces.flatMap Piece.args) = some (pieces.flatMap Piece.output)

/-- A directive without `#`, that fills up nothing before a minus and nothing with zeros behind the number, no character,
and neither a null pointer nor a string of 256 characters or more. -/
def Directive.Plain (d : Directive) : Prop :=
  .alternate ∉ d.flags ∧
    (d.converted.numeric = true → d.converted.body.length < d.width →
      d.converted.sign false = [] ∧ ¬ (d.flags.head? = some .zero ∧ .left ∈ d.flags)) ∧
    match d.converted with
    | .c _ => d.width ≤ 1
    | .s value => d.width ≠ 0 → ∃ s, value = some s ∧ s.length < 2 ^ 8
    | _ => True

def Piece.Plain : Piece → Prop
  | .literal _ _ => True
  | .directive d => d.Plain
  | .percent | .lone => False

end EspFirmware.Spec
