import EspFirmware.Lib.CString
import Mathlib.Algebra.GroupWithZero.Nat

/-!
The new `ets_vprintf` (`ets_printf.c`, with `CONFIG_USING_NEW_ETS_VPRINTF`). There is no result when it reads behind the
end of its format, from the null pointer, or an argument that is not there.
-/

namespace EspFirmware.Util
open Lib

def chr (c : Char) : BitVec 8 := BitVec.ofNat 8 c.toNat

inductive VaArg where
  | word (value : BitVec 32)
  | string (valcp : Option CString)
  deriving DecidableEq, Repr

inductive Conversion where
  | d
  | i
  | u
  | x
  | c
  | s
  | p
  deriving DecidableEq, Repr

def conversion (c : BitVec 8) : Option Conversion :=
  if c = chr 'd' then some .d
  else if c = chr 'i' then some .i
  else if c = chr 'u' then some .u
  else if c = chr 'x' then some .x
  else if c = chr 'c' then some .c
  else if c = chr 's' then some .s
  else if c = chr 'p' then some .p
  else none

structure ValAttr where
  fill0 : Bool
  fillLeft : Bool
  pointor : Bool
  alternate : Bool
  start : Bool
  fillbytes : Nat
  precision : Nat
  deriving DecidableEq, Repr

namespace ValAttr
variable (attr : ValAttr)

def initial : ValAttr := ⟨false, false, false, false, false, 0, 0⟩

def isfill_0 : Bool := attr.fillbytes ≠ 0 && attr.fill0

def isfill_left : Bool := attr.fillbytes ≠ 0 && attr.fillLeft

def digit (c : BitVec 8) : ValAttr :=
  if !attr.start && c == chr '0' then { attr with fill0 := true }
  else if attr.pointor then { attr with precision := (attr.precision * 10 + (c.toNat - 48)) % 2 ^ 8 }
  else { attr with fillbytes := (attr.fillbytes * 10 + (c.toNat - 48)) % 2 ^ 8 }

end ValAttr

def ets_isdigit (c : BitVec 8) : Bool := 48 ≤ c.toNat && c.toNat ≤ 57

/-- The inner loop of `ets_vprintf` from `*++ps` on; `skip` is the second increment that `#` makes. The end of the format is
taken for a type, and `ps` is then behind it. -/
def readAttr (skip : Bool) (attr : ValAttr) : CString → Option (Option Conversion × ValAttr × CString)
  | [] => none
  | c :: ps =>
      if skip then readAttr false attr ps
      else
        match conversion c with
        | some type => some (some type, attr, ps)
        | none =>
            if c = chr '#' then readAttr true { attr with alternate := true, start := true } ps
            else if ets_isdigit c then readAttr false { attr.digit c with start := true } ps
            else if c = chr '.' then readAttr false { attr with pointor := true, start := true } ps
            else if c = chr '-' then readAttr false { attr with fillLeft := true, start := true } ps
            else some (none, attr, c :: ps)

def ets_printf_ch_mutlti (c : BitVec 8) (len : Nat) : CString := List.replicate len c

/-- Text of `len` characters (an `unsigned char` each of `len` and `left`) between the characters that fill it up. -/
def filled (attr : ValAttr) (fill_data : BitVec 8) (left : Nat) (text : CString) : CString :=
  (if attr.isfill_left then [] else ets_printf_ch_mutlti fill_data left) ++ text ++
    (if attr.isfill_left then ets_printf_ch_mutlti fill_data left else [])

def ets_printf_str (attr : ValAttr) (valcp : Option CString) : Option CString :=
  if attr.fillbytes ≠ 0 then
    match valcp with
    | none => none
    | some s =>
        let len := s.length % 2 ^ 8
        let left := if len < attr.fillbytes then attr.fillbytes - len else 0
        some (filled attr (chr ' ') left (s.take len))
  else some (valcp.getD ("<null>".toList.map chr))

def putDigit (c : Nat) : BitVec 8 := if c < 10 then BitVec.ofNat 8 (c + 48) else BitVec.ofNat 8 (c + 97 - 10)

def putDigits (hex : Nat) : Nat → Nat → CString → Option CString
  | _, 0, buf => some buf
  | 0, _ + 1, _ => none
  | offset + 1, value + 1, buf => putDigits hex offset ((value + 1) / hex) (putDigit ((value + 1) % hex) :: buf)

def VINT_STR_MAX : Nat := 10

def ets_printf_int (attr : ValAttr) (value : BitVec 32) (hex : Nat) : Option CString :=
  (if value.toNat ≠ 0 then putDigits hex VINT_STR_MAX value.toNat [] else some [chr '0']).map fun digits =>
    if attr.fillbytes ≠ 0 then
      let fill_data := if attr.isfill_0 then chr '0' else chr ' '
      let left := if digits.length < attr.fillbytes then (attr.fillbytes - digits.length) % 2 ^ 8 else 0
      filled attr fill_data left digits
    else digits

def printArg (attr : ValAttr) : Conversion → VaArg → Option CString
  | .c, .word value => some [value.setWidth 8]
  | .s, .string valcp => ets_printf_str attr valcp
  | .i, .word value | .d, .word value =>
      if value.toInt < 0 then (ets_printf_int attr (-value) 10).map (chr '-' :: ·) else ets_printf_int attr value 10
  | .u, .word value => ets_printf_int attr value 10
  | .x, .word value => ets_printf_int attr value 16
  | .p, .word value => ets_printf_int attr value 16
  | _, _ => none

theorem readAttr_length {skip : Bool} {attr attr' : ValAttr} {fmt ps : CString} {type : Option Conversion}
    (read : readAttr skip attr fmt = some (type, attr', ps)) : ps.length ≤ fmt.length := by
  induction fmt generalizing skip attr with
  | nil => cases read
  | cons c fmt ih =>
      have shorter {skip : Bool} {attr : ValAttr} (read : readAttr skip attr fmt = some (type, attr', ps)) :
          ps.length ≤ (c :: fmt).length := Nat.le_trans (ih read) (Nat.le_succ _)
      unfold readAttr at read
      split at read
      · exact shorter read
      · split at read
        · cases read
          exact Nat.le_succ _
        · split at read
          · exact shorter read
          · split at read
            · exact shorter read
            · split at read
              · exact shorter read
              · split at read
                · exact shorter read
                · cases read
                  exact Nat.le_refl _

def ets_vprintf (fmt : CString) (va : List VaArg) : Option CString :=
  match fmt with
  | [] => some []
  | c :: fmt =>
      if c ≠ chr '%' then (ets_vprintf fmt va).map (c :: ·)
      else
        match read : readAttr false .initial fmt with
        | none => none
        | some (none, _, ps) => ets_vprintf ps va
        | some (some type, attr, ps) =>
            match va with
            | [] => none
            | arg :: va => (printArg attr type arg).bind fun out => (ets_vprintf ps va).map (out ++ ·)
  termination_by fmt.length
  decreasing_by
    · exact Nat.lt_succ_self _
    · exact Nat.lt_succ_of_le (readAttr_length read)
    · exact Nat.lt_succ_of_le (readAttr_length read)

example : ets_vprintf ("a%5d%-4xb".toList.map chr) [.word 42, .word 255] = some ("a   42ff  b".toList.map chr) := by
  decide +kernel

end EspFirmware.Util
