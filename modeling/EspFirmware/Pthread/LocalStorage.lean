import Mathlib.Data.Fintype.Basic

/-!
Thread-specific data (`pthread_local_storage.c`): the list of keys, and for each thread a list of its values. The
clean-up of a thread goes through its list while destructors call the same functions.
-/

namespace EspFirmware.Pthread

structure KeyEntry where
  key : BitVec 32
  destructor : Option Nat
  deriving DecidableEq, Repr

structure ValueEntry where
  key : BitVec 32
  value : BitVec 32
  freed : Bool
  deriving DecidableEq, Repr

/-- `values_list_t`: the entries before the one that the clean-up has come to, and those from there on. -/
structure ValuesList where
  front : List ValueEntry
  rest : List ValueEntry
  /-- the entry that the clean-up has come to was removed and freed -/
  lost : Bool
  deriving DecidableEq, Repr

inductive Cleanup where
  | running
  | visit
  | destructor (f : Nat)
  | advance
  deriving DecidableEq, Repr

structure LocalStorage (n : Nat) where
  s_keys : List KeyEntry
  tls : Fin n → Option ValuesList
  cleanup : Fin n → Cleanup
  /-- memory was used after it was freed -/
  fault : Bool

inductive StorageRet where
  | ok
  | ENOENT
  | ENOMEM
  deriving DecidableEq, Repr

def findValue (key : BitVec 32) : List ValueEntry → Option (Option ValueEntry)
  | [] => some none
  | entry :: rest => if entry.freed then none else if entry.key = key then some (some entry) else findValue key rest

def setEntry (key value : BitVec 32) : List ValueEntry → List ValueEntry
  | [] => []
  | entry :: rest =>
      if entry.key = key then { entry with value := value } :: rest else entry :: setEntry key value rest

def removeEntry (key : BitVec 32) (entries : List ValueEntry) : List ValueEntry :=
  entries.eraseP fun entry => entry.key = key

namespace ValuesList

def find_value (tls : ValuesList) (key : BitVec 32) : Option (Option ValueEntry) := findValue key (tls.front ++ tls.rest)

def inFront (tls : ValuesList) (key : BitVec 32) : Bool := tls.front.any fun entry => entry.key = key

def set (tls : ValuesList) (key value : BitVec 32) : ValuesList :=
  if tls.inFront key then { tls with front := setEntry key value tls.front }
  else { tls with rest := setEntry key value tls.rest }

def remove (tls : ValuesList) (cleaning : Bool) (key : BitVec 32) : ValuesList :=
  if tls.inFront key then { tls with front := removeEntry key tls.front }
  else if cleaning ∧ tls.lost = false ∧ tls.rest.head?.map ValueEntry.key = some key then
    { tls with rest := tls.rest.tail, lost := true }
  else { tls with rest := removeEntry key tls.rest }

def insert (tls : ValuesList) (cleaning : Bool) (entry : ValueEntry) : ValuesList :=
  if cleaning then { tls with front := entry :: tls.front } else { tls with rest := entry :: tls.rest }

/-- What `pthread_setspecific` does with the list, with the number of allocations that succeed; `none` if it comes to
freed memory. -/
def setspecific (tls : ValuesList) (cleaning : Bool) (key value : BitVec 32) (heap : Nat) :
    Option (StorageRet × ValuesList) :=
  (tls.find_value key).map fun entry =>
    match entry with
    | some _ => if value ≠ 0 then (.ok, tls.set key value) else (.ok, tls.remove cleaning key)
    | none =>
        if value = 0 then (.ok, tls)
        else if heap = 0 then (.ENOMEM, tls)
        else (.ok, tls.insert cleaning ⟨key, value, false⟩)

end ValuesList

namespace LocalStorage
variable {n : Nat} (s : LocalStorage n)

def start (n : Nat) : LocalStorage n := ⟨[], fun _ => none, fun _ => .running, false⟩

def setTls (t : Fin n) (tls : Option ValuesList) : LocalStorage n :=
  { s with tls := fun u => if u = t then tls else s.tls u }

def goto (t : Fin n) (cleanup : Cleanup) : LocalStorage n :=
  { s with cleanup := fun u => if u = t then cleanup else s.cleanup u }

def newKey : BitVec 32 :=
  match s.s_keys with
  | [] => 1
  | head :: _ => head.key + 1

def pthread_key_create (destructor : Option Nat) : LocalStorage n :=
  { s with s_keys := ⟨s.newKey, destructor⟩ :: s.s_keys }

def find_key (key : BitVec 32) : Option KeyEntry := s.s_keys.find? fun entry => entry.key = key

def pthread_key_delete (key : BitVec 32) : LocalStorage n :=
  { s with s_keys := s.s_keys.eraseP fun entry => entry.key = key }

def pthread_getspecific (t : Fin n) (key : BitVec 32) : Option (BitVec 32) :=
  match s.tls t with
  | none => some 0
  | some tls => (tls.find_value key).map fun entry => (entry.map ValueEntry.value).getD 0

def store (t : Fin n) : Option (StorageRet × ValuesList) → StorageRet × LocalStorage n
  | none => (.ok, { s with fault := true })
  | some (ret, tls) => (ret, s.setTls t (some tls))

def pthread_setspecific (t : Fin n) (key value : BitVec 32) (heap : Nat) : StorageRet × LocalStorage n :=
  match s.find_key key with
  | none => (.ENOENT, s)
  | some _ =>
      match s.tls t with
      | none =>
          if heap = 0 then (.ENOMEM, s)
          else s.store t ((⟨[], [], false⟩ : ValuesList).setspecific (s.cleanup t ≠ .running) key value (heap - 1))
      | some tls => s.store t (tls.setspecific (s.cleanup t ≠ .running) key value heap)

def exit (t : Fin n) : LocalStorage n :=
  match s.tls t with
  | none => s
  | some _ => s.goto t .visit

def visit (t : Fin n) (tls : ValuesList) : LocalStorage n :=
  match tls.rest with
  | [] => (s.setTls t none).goto t .running
  | entry :: _ =>
      match (s.find_key entry.key).bind KeyEntry.destructor with
      | some destructor => s.goto t (.destructor destructor)
      | none => s.goto t .advance

def advance (t : Fin n) (tls : ValuesList) : LocalStorage n :=
  if tls.lost then { s with fault := true }
  else
    match tls.rest with
    | [] => s
    | entry :: next =>
        (s.setTls t (some { tls with front := tls.front ++ [{ entry with freed := true }], rest := next })).goto t .visit

end LocalStorage

inductive StorageEvent (n : Nat) where
  | create (destructor : Option Nat)
  | delete (key : BitVec 32)
  | set (t : Fin n) (key value : BitVec 32) (heap : Nat)
  | get (t : Fin n) (key : BitVec 32)
  | exit (t : Fin n)
  | visit (t : Fin n)
  | destructorReturns (t : Fin n)
  | advance (t : Fin n)
  deriving DecidableEq, Repr

def Cleanup.calls : Cleanup → Bool
  | .running | .destructor _ => true
  | .visit | .advance => false

def StorageEvent.run {n : Nat} (s : LocalStorage n) (e : StorageEvent n) : Option (LocalStorage n) :=
  if s.fault then none
  else
    match e with
    | .create destructor => some (s.pthread_key_create destructor)
    | .delete key => some (s.pthread_key_delete key)
    | .set t key value heap => if (s.cleanup t).calls then some (s.pthread_setspecific t key value heap).2 else none
    | .get t key =>
        if (s.cleanup t).calls then
          some (if s.pthread_getspecific t key = none then { s with fault := true } else s)
        else none
    | .exit t => if s.cleanup t = .running then some (s.exit t) else none
    | .visit t => if s.cleanup t = .visit then (s.tls t).map (s.visit t) else none
    | .destructorReturns t =>
        match s.cleanup t with
        | .destructor _ => some (s.goto t .advance)
        | _ => none
    | .advance t => if s.cleanup t = .advance then (s.tls t).map (s.advance t) else none

end EspFirmware.Pthread
