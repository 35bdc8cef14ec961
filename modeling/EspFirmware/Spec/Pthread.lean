import Mathlib.Data.Fintype.Card
import EspFirmware.Lib.Run
import EspFirmware.Pthread.CondVar
import EspFirmware.Pthread.LocalStorage
import EspFirmware.Pthread.Thread

/-!
What threads, condition variables and thread-specific data are for.
-/

namespace EspFirmware.Pthread

namespace Threads
variable {n : Nat} (s : Threads n)

def StillToEnd (i : Fin n) : Prop := s.isThread i = true ∧ s.pc i ≠ .absent ∧ s.pc i ≠ .ended

def Joining (i : Fin n) (thread : Nat) : Prop := s.pc i = .joinWait thread ∨ s.pc i = .joinDelete thread

instance (i : Fin n) (thread : Nat) : Decidable (s.Joining i thread) := inferInstanceAs (Decidable (_ ∨ _))

end Threads

def ThreadPc.starts? {n : Nat} : ThreadPc n → Option (Fin n)
  | .insert pthread => some pthread.handle
  | .notifyStart xHandle => some xHandle
  | _ => none

def ThreadPc.joinWaits {n : Nat} : ThreadPc n → Bool
  | .joinWait _ => true
  | _ => false

def Threads.Waits {n : Nat} (s : Threads n) (i : Fin n) : Prop := (s.pc i).joinWaits = true ∧ s.notified i = false

instance {n : Nat} (s : Threads n) (i : Fin n) : Decidable (s.Waits i) := inferInstanceAs (Decidable (_ ∧ _))

/-- No notification comes from elsewhere where a join waits for its own or a new thread is being set up; a join that
waits begins without one and on a thread that is not detached; a thread is detached before it ends or a join waits. -/
def ThreadEvent.Orderly {n : Nat} (s : Threads n) : ThreadEvent n → Prop
  | .notify i => ¬ s.Waits i ∧ ∀ j, (s.pc j).starts? ≠ some i
  | .join i thread =>
      s.joinVerdict i thread = .wait →
        s.notified i = false ∧ ∀ p ∈ s.s_threads_list, p.self = thread → p.detached = false
  | .detach _ thread =>
      ∀ p ∈ s.s_threads_list, p.self = thread → p.state = .run ∧ ∀ j, p.join_task = some j → ¬ s.Waits j
  | _ => True

instance {n : Nat} (s : Threads n) (e : ThreadEvent n) : Decidable (e.Orderly s) :=
  match e with
  | .notify _ => inferInstanceAs (Decidable (_ ∧ _))
  | .join _ _ => inferInstanceAs (Decidable (_ → _))
  | .detach _ _ => inferInstanceAs (Decidable (∀ p ∈ _, _ → _))
  | .create _ _ _ | .funcReturns _ | .step _ | .takeNotification _ | .taskCreate _ | .taskDelete _ => isTrue trivial

end EspFirmware.Pthread

namespace EspFirmware.Spec
open Lib Pthread

structure Life where
  created : Bool := false
  returned : Bool := false
  ended : Bool := false
  joined : Bool := false
  detached : Bool := false
  deriving DecidableEq, Repr

abbrev Lives := Nat → Life

def Lives.mark (lives : Lives) (thread : Nat) (f : Life → Life) : Lives :=
  fun d => if d = thread then f (lives d) else lives d

structure ThreadRun (n : Nat) where
  s : Threads n
  own : Fin n → Nat
  lives : Lives

namespace ThreadRun
variable {n : Nat} (r : ThreadRun n)

def start (tasks : Fin n → Bool) (own : Fin n → Nat) : ThreadRun n := ⟨Threads.start tasks, own, fun _ => {}⟩

def owns : ThreadEvent n → Fin n → Nat
  | .create _ xHandle pthread => fun j => if j = xHandle then pthread else r.own j
  | _ => r.own

def marks : ThreadEvent n → Lives
  | .create _ _ pthread => r.lives.mark pthread fun _ => { created := true }
  | .funcReturns i => r.lives.mark (r.own i) fun life => { life with returned := true }
  | .detach _ thread =>
      if r.s.Listed thread then r.lives.mark thread fun life => { life with detached := true } else r.lives
  | .join i thread =>
      if r.s.joinVerdict i thread = .delete then r.lives.mark thread fun life => { life with joined := true }
      else r.lives
  | .step i =>
      match r.s.pc i with
      | .leave => r.lives.mark (r.own i) fun life => { life with ended := true }
      | .joinDelete thread => r.lives.mark thread fun life => { life with joined := true }
      | _ => r.lives
  | _ => r.lives

def step (e : ThreadEvent n) : Option (ThreadRun n) := (e.run r.s).map fun s' => ⟨s', r.owns e, r.marks e⟩

/-- Descriptors are removed and freed once, in time and not too early, and joins return in time. -/
structure ReleasedOnce : Prop where
  noFault : r.s.fault = none
  notEarly : ∀ d, (r.lives d).created = true → ¬ r.s.Malloced d →
    (r.lives d).ended = true ∧ ((r.lives d).joined = true ∨ (r.lives d).detached = true)
  released : ∀ d, (r.lives d).ended = true →
    (r.lives d).joined = true ∨ (r.lives d).detached = true ∧ (∀ i, ¬ r.s.Joining i d) → ¬ r.s.Malloced d
  kept : ∀ i, r.s.StillToEnd i → r.s.Malloced (r.own i)
  found : ∀ i, r.s.StillToEnd i → r.s.pc i ≠ .waitStart → (r.s.pthread_find i).map EspPthread.self = some (r.own i)
  joinsAfterReturn : ∀ d, (r.lives d).joined = true → (r.lives d).returned = true
  joinerNotified : ∀ i d, r.s.pc i = .joinWait d → (r.lives d).ended = true → r.s.notified i = true

end ThreadRun

abbrev runThreads {n : Nat} : List (ThreadEvent n) → ThreadRun n → Option (ThreadRun n) := runSteps ThreadRun.step

abbrev runOnce {n : Nat} : List (OnceEvent n) → OnceTasks n → Option (OnceTasks n) := runSteps OnceEvent.run

def onceCalls {n : Nat} (events : List (OnceEvent n)) : Nat :=
  events.countP fun e => match e with
    | .pthread_once _ => true
    | .step _ => false

end EspFirmware.Spec

namespace EspFirmware.Pthread

def CondPc.waits : CondPc → Bool
  | .unlock _ | .take _ => true
  | _ => false

def CondTasks.Eligible {n : Nat} (s : CondTasks n) (i : Fin n) : Prop :=
  i ∈ s.waiter_list ∧ (s.pc i).waits = true ∧ s.wait_sem i = some false

instance {n : Nat} (s : CondTasks n) (i : Fin n) : Decidable (s.Eligible i) := inferInstanceAs (Decidable (_ ∧ _))

def CondEvent.FirstWaits {n : Nat} (s : CondTasks n) : CondEvent n → Prop
  | .signal _ => (∃ i, s.Eligible i) → ∃ i, s.waiter_list.head? = some i ∧ s.Eligible i
  | _ => True

instance {n : Nat} (s : CondTasks n) (e : CondEvent n) : Decidable (e.FirstWaits s) :=
  match e with
  | .signal _ => inferInstanceAs (Decidable (_ → _))
  | .timedwait _ _ _ | .step _ | .timeout _ | .broadcast _ | .lock _ | .unlock _ => isTrue trivial

end EspFirmware.Pthread

namespace EspFirmware.Spec
open Lib Pthread

/-- A run of tasks in which each wait has a number of its own, with the waits that were released by a signal or a
broadcast and those that timed out. -/
structure CondRun (n : Nat) where
  s : CondTasks n
  number : Fin n → Nat
  waits : Nat
  released : Nat → Bool
  timedOut : Nat → Bool

namespace CondRun
variable {n : Nat}

def start (n : Nat) : CondRun n := ⟨CondTasks.start n, fun _ => 0, 0, fun _ => false, fun _ => false⟩

def numbers (r : CondRun n) : CondEvent n → (Fin n → Nat) × Nat
  | .step i =>
      match r.s.pc i with
      | .enqueue _ => (fun j => if j = i then r.waits else r.number j, r.waits + 1)
      | _ => (r.number, r.waits)
  | _ => (r.number, r.waits)

/-- A wait is released when the semaphore of its waiter is given while it is eligible. -/
def step (portTICK_PERIOD_MS : Nat) (r : CondRun n) (e : CondEvent n) : Option (CondRun n) :=
  (e.run portTICK_PERIOD_MS r.s).map fun s' =>
    { s := s'
      number := (r.numbers e).1
      waits := (r.numbers e).2
      released := fun k => r.released k || decide (∃ j, r.number j = k ∧ r.s.Eligible j ∧ s'.wait_sem j = some true)
      timedOut := fun k => r.timedOut k || decide (∃ j, e = .timeout j ∧ r.number j = k) }

variable (r : CondRun n)

/-- The waiters that were eligible in `r` and have not timed out, and those that have been released. -/
def remaining (later : CondRun n) : Finset (Fin n) :=
  Finset.univ.filter fun i => r.s.Eligible i ∧ later.timedOut (r.number i) = false

def freed (later : CondRun n) : Finset (Fin n) :=
  Finset.univ.filter fun i => r.s.Eligible i ∧ later.released (r.number i) = true

end CondRun

abbrev runCond {n : Nat} (portTICK_PERIOD_MS : Nat) : List (CondEvent n) → CondRun n → Option (CondRun n) :=
  runSteps (CondRun.step portTICK_PERIOD_MS)

def signals {n : Nat} (events : List (CondEvent n)) : Nat :=
  events.countP fun e => match e with
    | .signal _ => true
    | _ => false

/-- From `r` on, signals release as many of the waiters as there are signals, if there are so many; a broadcast releases
all of them; and only a waiter in the list is given its semaphore. -/
structure SignalsKept {n : Nat} (portTICK_PERIOD_MS : Nat) (r : CondRun n) (events : List (CondEvent n))
    (later : CondRun n) : Prop where
  signalled : signals events ≤ (r.remaining later).card → signals events ≤ (r.freed later).card
  broadcast : ∀ i r', later.step portTICK_PERIOD_MS (.broadcast i) = some r' →
    ∀ j, later.s.Eligible j → r'.released (later.number j) = true
  noFault : later.s.fault = false
  given : ∀ e r', later.step portTICK_PERIOD_MS e = some r' →
    ∀ j, later.s.wait_sem j ≠ some true → r'.s.wait_sem j = some true → j ∈ later.s.waiter_list

end EspFirmware.Spec

namespace EspFirmware.Pthread

def LocalStorage.Readable {n : Nat} (s : LocalStorage n) (t : Fin n) : Prop :=
  s.cleanup t = .running ∨ ∀ tls, s.tls t = some tls → tls.front = []

def LocalStorage.Holds {n : Nat} (s : LocalStorage n) (t : Fin n) (key : BitVec 32) : Prop :=
  ∃ tls ∈ s.tls t, ∃ entry ∈ tls.front ++ tls.rest, entry.freed = false ∧ entry.key = key

instance {n : Nat} (s : LocalStorage n) (t : Fin n) : Decidable (s.Readable t) :=
  match tls : s.tls t with
  | none => isTrue (.inr fun _ some => by rw [tls] at some; cases some)
  | some list =>
      decidable_of_iff (s.cleanup t = .running ∨ list.front = []) (or_congr_right
        ⟨fun empty _ same => by rw [tls] at same; cases same; exact empty, fun all => all list tls⟩)

instance {n : Nat} (s : LocalStorage n) (t : Fin n) (key : BitVec 32) : Decidable (s.Holds t key) :=
  inferInstanceAs (Decidable (∃ tls ∈ s.tls t, _))

end EspFirmware.Pthread

namespace EspFirmware.Spec
open Lib Pthread

/-- A run of threads, with the value that each thread has set last for each key since the key was created, how
often it was passed to a destructor since, and whether the numbers of the keys have come round to 0. -/
structure StorageRun (n : Nat) where
  s : LocalStorage n
  value : Fin n → BitVec 32 → BitVec 32
  passed : Fin n → BitVec 32 → Nat
  wrapped : Bool

namespace StorageRun
variable {n : Nat} (r : StorageRun n)

def start (n : Nat) : StorageRun n := ⟨LocalStorage.start n, fun _ _ => 0, fun _ _ => 0, false⟩

def AtEnd (t : Fin n) : Prop := r.s.cleanup t = .visit ∧ ∃ tls ∈ r.s.tls t, tls.rest = []

def Passes (t : Fin n) (entry : ValueEntry) : Prop :=
  r.s.cleanup t = .visit ∧ (∃ tls ∈ r.s.tls t, tls.rest.head? = some entry) ∧
    ∃ key, r.s.find_key entry.key = some key ∧ key.destructor ≠ none

instance (t : Fin n) : Decidable (r.AtEnd t) := inferInstanceAs (Decidable (_ ∧ _))

def values : StorageEvent n → Fin n → BitVec 32 → BitVec 32
  | .create _ => fun t key => if key = r.s.newKey then 0 else r.value t key
  | .set t key value heap =>
      if (r.s.pthread_setspecific t key value heap).1 = .ok then
        fun u k => if u = t ∧ k = key then value else r.value u k
      else r.value
  | .visit t => if r.AtEnd t then fun u key => if u = t then 0 else r.value u key else r.value
  | _ => r.value

def passes : StorageEvent n → Fin n → BitVec 32 → Nat
  | .create _ => fun t key => if key = r.s.newKey then 0 else r.passed t key
  | .set t key value heap =>
      if (r.s.pthread_setspecific t key value heap).1 = .ok then
        fun u k => if u = t ∧ k = key then 0 else r.passed u k
      else r.passed
  | .visit t =>
      match (r.s.tls t).bind fun tls => tls.rest.head? with
      | none => fun u key => if u = t then 0 else r.passed u key
      | some entry =>
          if ((r.s.find_key entry.key).bind KeyEntry.destructor).isSome then
            fun u key => if u = t ∧ key = entry.key then r.passed u key + 1 else r.passed u key
          else r.passed
  | _ => r.passed

def wraps : StorageEvent n → Bool
  | .create _ => r.wrapped || r.s.newKey == 0
  | _ => r.wrapped

/-- A new key's number is left with no thread, and no live key's once the numbers have come round; and a destructor
looks at its thread's values only as the first one of the clean-up, and changes none but those still to come. -/
def Clean : StorageEvent n → Prop
  | .create destructor =>
      (r.wraps (.create destructor) = true → r.s.find_key r.s.newKey = none) ∧ ∀ t, ¬ r.s.Holds t r.s.newKey
  | .set t key value _ =>
      r.s.cleanup t = .running ∨ r.s.find_key key = none ∨ r.s.Readable t ∧
        ∀ tls ∈ r.s.tls t, tls.rest.head?.map ValueEntry.key ≠ some key ∧
          (value ≠ 0 → ∃ entry ∈ tls.rest, entry.key = key)
  | .get t _ => r.s.Readable t
  | _ => True

instance (e : StorageEvent n) : Decidable (r.Clean e) :=
  match e with
  | .create _ => inferInstanceAs (Decidable (_ ∧ _))
  | .set _ _ _ _ => inferInstanceAs (Decidable (_ ∨ _ ∨ _ ∧ ∀ tls ∈ _, _ ∧ (_ → ∃ entry ∈ _, _)))
  | .get t _ => inferInstanceAs (Decidable (r.s.Readable t))
  | .delete _ | .exit _ | .visit _ | .destructorReturns _ | .advance _ => isTrue trivial

def step (e : StorageEvent n) : Option (StorageRun n) :=
  (e.run r.s).map fun s' => ⟨s', r.values e, r.passes e, r.wraps e⟩

/-- Each thread has a map from the live keys to its values, and its destructors get what is left in it. -/
structure MapPerThread : Prop where
  noFault : r.s.fault = false
  distinct : (r.s.s_keys.map KeyEntry.key).Nodup
  gets : ∀ t, (r.s.cleanup t).calls = true → r.s.Readable t → ∀ key,
    r.s.pthread_getspecific t key = some (r.value t key)
  passes : ∀ t entry, r.Passes t entry →
    entry.value = r.value t entry.key ∧ entry.value ≠ 0 ∧ r.passed t entry.key = 0
  allPassed : ∀ t, r.AtEnd t → ∀ key ∈ r.s.s_keys, key.destructor ≠ none → r.value t key.key ≠ 0 →
    r.passed t key.key = 1

end StorageRun

abbrev runStorage {n : Nat} : List (StorageEvent n) → StorageRun n → Option (StorageRun n) := runSteps StorageRun.step

end EspFirmware.Spec
