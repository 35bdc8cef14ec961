import EspFirmware.Lib.CString

/-!
The levels of tags (`log.c`, with `CONFIG_LOG_SET_LEVEL`). Memory that was freed is taken to keep what is in it until it
is allocated again, but that it was read is noted.
-/

namespace EspFirmware.Util
open Lib

inductive LogLevel where
  | none
  | error
  | warn
  | info
  | debug
  | verbose
  deriving DecidableEq, Repr

def LogLevel.value : LogLevel → Nat
  | .none => 0
  | .error => 1
  | .warn => 2
  | .info => 3
  | .debug => 4
  | .verbose => 5

def GLOBAL_TAG : CString := [42]

structure TagEntry where
  level : LogLevel
  tag : CString
  deriving DecidableEq, Repr

/-- The list of entries by their addresses, first one first, and what is at the addresses. -/
structure LogTags where
  s_global_tag_level : LogLevel
  s_log_uncached_tags : List Nat
  s_uncached_tag_entry_prev : Option Nat
  entry : Nat → TagEntry
  freed : Nat → Bool
  readFreed : Bool

namespace LogTags
variable (s : LogTags)

def start : LogTags := ⟨.verbose, [], none, fun _ => ⟨.none, []⟩, fun _ => false, false⟩

def read (a : Nat) : LogTags := { s with readFreed := s.readFreed || s.freed a }

def setEntry (a : Nat) (entry : TagEntry) : LogTags := { s with entry := fun b => if b = a then entry else s.entry b }

def esp_log_get_tag_entry (tag : CString) : Option Nat := s.s_log_uncached_tags.find? fun a => (s.entry a).tag = tag

def clearFrom : List Nat → LogTags → LogTags
  | [], s => s
  | it :: next, s =>
      clearFrom next ({ s with s_log_uncached_tags := next, freed := fun a => if a = it then true else s.freed a }.read it)

def clear_log_level_list : LogTags := clearFrom s.s_log_uncached_tags s

def searchLevel (tag : CString) : LogLevel × LogTags :=
  match s.esp_log_get_tag_entry tag with
  | some entry => ((s.entry entry).level, { s with s_uncached_tag_entry_prev := some entry })
  | none => (s.s_global_tag_level, s)

def esp_log_get_level (tag : CString) : LogLevel × LogTags :=
  match s.s_uncached_tag_entry_prev with
  | none => s.searchLevel tag
  | some prev => if (s.entry prev).tag = tag then ((s.entry prev).level, s.read prev) else (s.read prev).searchLevel tag

def esp_log_level_set (tag : CString) (level : LogLevel) (new_entry : Nat) : LogTags :=
  if tag = GLOBAL_TAG then { s with s_global_tag_level := level }.clear_log_level_list
  else
    match s.esp_log_get_tag_entry tag with
    | some entry => s.setEntry entry { s.entry entry with level := level }
    | none =>
        { s.setEntry new_entry ⟨level, tag⟩ with
          s_log_uncached_tags := new_entry :: s.s_log_uncached_tags
          freed := fun a => if a = new_entry then false else s.freed a }

def esp_log_write (level : LogLevel) (tag : CString) : Bool × LogTags :=
  let (system_level, s) := s.esp_log_get_level tag
  (decide (level.value ≤ system_level.value), s)

end LogTags

inductive LogCall where
  | set (tag : CString) (level : LogLevel) (new_entry : Nat)
  | write (level : LogLevel) (tag : CString)
  deriving DecidableEq, Repr

def LogCall.run (s : LogTags) : LogCall → Option LogTags
  | .set tag level new_entry =>
      if new_entry ∈ s.s_log_uncached_tags then none else some (s.esp_log_level_set tag level new_entry)
  | .write level tag => some (s.esp_log_write level tag).2

end EspFirmware.Util
