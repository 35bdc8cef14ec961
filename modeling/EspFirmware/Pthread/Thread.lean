import Mathlib.Data.Fintype.Basic

/-!
Threads on top of tasks (`pthread.c`). The list of threads is only used between taking and giving `s_threads_mux`, so
that such a section is one step of a task.
-/

namespace EspFirmware.Pthread

inductive TaskState where
  | run
  | exit
  deriving DecidableEq, Repr

structure EspPthread (n : Nat) where
  self : Nat
  handle : Fin n
  join_task : Option (Fin n)
  state : TaskState
  detached : Bool
  deriving DecidableEq, Repr

inductive ThreadPc (n : Nat) where
  /-- no task has this handle -/
  | absent
  /-- its own code: the function of a thread, or a task that is no thread -/
  | running
  /-- `pthread_task_func` -/
  | waitStart
  | leave
  | ended
  /-- `pthread_create` -/
  | insert (pthread : EspPthread n)
  | notifyStart (xHandle : Fin n)
  /-- `pthread_join` -/
  | joinWait (pthread : Nat)
  | joinDelete (pthread : Nat)
  deriving DecidableEq, Repr

inductive ThreadFault where
  /-- the assertion of `pthread_task_func` -/
  | threadNotFound
  /-- `SLIST_REMOVE` and `free` of a descriptor that is not in the list any more -/
  | notListed
  deriving DecidableEq, Repr

inductive Errno where
  | ESRCH
  | EINVAL
  | EDEADLK
  deriving DecidableEq, Repr

inductive JoinVerdict where
  | refused (ret : Errno)
  | wait
  | delete
  deriving DecidableEq, Repr

/-- The list of threads, first one first, and the tasks by their handles. A task's notification is pending or not. -/
structure Threads (n : Nat) where
  s_threads_list : List (EspPthread n)
  pc : Fin n → ThreadPc n
  isThread : Fin n → Bool
  notified : Fin n → Bool
  fault : Option ThreadFault

def ThreadPc.inserting? {n : Nat} : ThreadPc n → Option Nat
  | .insert pthread => some pthread.self
  | _ => none

namespace Threads
variable {n : Nat} (s : Threads n)

def start (tasks : Fin n → Bool) : Threads n where
  s_threads_list := []
  pc i := if tasks i then .running else .absent
  isThread _ := false
  notified _ := false
  fault := none

def goto (i : Fin n) (pc : ThreadPc n) : Threads n := { s with pc := fun j => if j = i then pc else s.pc j }

def setNotified (i : Fin n) (value : Bool) : Threads n :=
  { s with notified := fun j => if j = i then value else s.notified j }

def modify (thread : Nat) (f : EspPthread n → EspPthread n) : Threads n :=
  { s with s_threads_list := s.s_threads_list.map fun p => if p.self = thread then f p else p }

def findDesc (thread : Nat) : Option (EspPthread n) := s.s_threads_list.find? fun p => p.self = thread

def pthread_find (task_handle : Fin n) : Option (EspPthread n) :=
  s.s_threads_list.find? fun p => p.handle = task_handle

def Listed (thread : Nat) : Prop := ∃ p ∈ s.s_threads_list, p.self = thread

def Malloced (thread : Nat) : Prop := s.Listed thread ∨ ∃ j, (s.pc j).inserting? = some thread

instance (thread : Nat) : Decidable (s.Listed thread) := inferInstanceAs (Decidable (∃ p ∈ _, _))

instance (thread : Nat) : Decidable (s.Malloced thread) := inferInstanceAs (Decidable (_ ∨ _))

def pthread_delete (thread : Nat) : Threads n :=
  if s.Listed thread then { s with s_threads_list := s.s_threads_list.eraseP fun p => p.self = thread }
  else { s with fault := some .notListed }

/-- The last section of `pthread_task_func`, in the task with the handle. -/
def leave (i : Fin n) : Threads n :=
  match s.pthread_find i with
  | none => { s with fault := some .threadNotFound }
  | some pthread =>
      if pthread.detached then s.pthread_delete pthread.self
      else
        match pthread.join_task with
        | some join_task => s.setNotified join_task true
        | none => s.modify pthread.self fun p => { p with state := .exit }

def joinVerdict (i : Fin n) (thread : Nat) : JoinVerdict :=
  match s.findDesc thread with
  | none => .refused .ESRCH
  | some pthread =>
      if pthread.join_task.isSome then .refused .EINVAL
      else if pthread.handle = i then .refused .EDEADLK
      else if (s.pthread_find i).bind EspPthread.join_task = some pthread.handle then .refused .EDEADLK
      else if pthread.state = .run then .wait
      else .delete

def pthread_join (i : Fin n) (thread : Nat) : Threads n :=
  match s.joinVerdict i thread with
  | .refused _ => s
  | .wait => (s.modify thread fun p => { p with join_task := some i }).goto i (.joinWait thread)
  | .delete => s.pthread_delete thread

def pthread_detach (thread : Nat) : Threads n :=
  match s.findDesc thread with
  | none => s
  | some _ => s.modify thread fun p => { p with detached := true }

def pthread_create (i xHandle : Fin n) (pthread : Nat) : Threads n :=
  { s.setNotified xHandle false with
    pc := fun j =>
      if j = i then .insert ⟨pthread, xHandle, none, .run, false⟩ else if j = xHandle then .waitStart else s.pc j
    isThread := fun j => if j = xHandle then true else s.isThread j }

def notifyWait (i : Fin n) (pc : ThreadPc n) : Option (Threads n) :=
  if s.notified i then some ((s.setNotified i false).goto i pc) else none

/-- The next step of a task; `none` if it has to wait, or if what it does is up to its own code. -/
def next (i : Fin n) : Option (Threads n) :=
  match s.pc i with
  | .absent | .running => none
  | .waitStart => s.notifyWait i .running
  | .leave => some (s.leave i |>.goto i .ended)
  | .ended => some ({ s with isThread := fun j => if j = i then false else s.isThread j }.goto i .absent)
  | .insert pthread =>
      some ({ s with s_threads_list := pthread :: s.s_threads_list }.goto i (.notifyStart pthread.handle))
  | .notifyStart xHandle => some ((s.setNotified xHandle true).goto i .running)
  | .joinWait pthread => s.notifyWait i (.joinDelete pthread)
  | .joinDelete pthread => some (s.pthread_delete pthread |>.goto i .running)

end Threads

inductive ThreadEvent (n : Nat) where
  /-- `malloc` has given the address and `xTaskCreate` the handle; where one of them fails, nothing is left behind -/
  | create (i xHandle : Fin n) (pthread : Nat)
  | join (i : Fin n) (thread : Nat)
  | detach (i : Fin n) (thread : Nat)
  /-- the function of a thread returns -/
  | funcReturns (i : Fin n)
  | step (i : Fin n)
  /-- a notification for another reason -/
  | notify (i : Fin n)
  /-- a task waits for a notification in its own code -/
  | takeNotification (i : Fin n)
  /-- a task that is no thread -/
  | taskCreate (i : Fin n)
  | taskDelete (i : Fin n)
  deriving DecidableEq, Repr

def ThreadEvent.run {n : Nat} (s : Threads n) (e : ThreadEvent n) : Option (Threads n) :=
  if s.fault ≠ none then none
  else
    match e with
    | .create i xHandle pthread =>
        if s.pc i = .running ∧ s.pc xHandle = .absent ∧ ¬ s.Malloced pthread then
          some (s.pthread_create i xHandle pthread)
        else none
    | .join i thread => if s.pc i = .running then some (s.pthread_join i thread) else none
    | .detach i thread => if s.pc i = .running then some (s.pthread_detach thread) else none
    | .funcReturns i => if s.pc i = .running ∧ s.isThread i = true then some (s.goto i .leave) else none
    | .step i => s.next i
    | .notify i => if s.pc i = .absent then none else some (s.setNotified i true)
    | .takeNotification i => if s.pc i = .running then s.notifyWait i .running else none
    | .taskCreate i => if s.pc i = .absent then some ((s.setNotified i false).goto i .running) else none
    | .taskDelete i => if s.pc i = .running ∧ s.isThread i = false then some (s.goto i .absent) else none

structure OnceControl where
  is_initialized : BitVec 32
  init_executed : BitVec 32
  deriving DecidableEq, Repr

def PTHREAD_ONCE_INIT : OnceControl := ⟨1, 0⟩

def uxPortCompareSet (_addr compare _set : BitVec 32) : BitVec 32 × BitVec 32 := (compare, 0)

inductive OncePc where
  | idle
  | compareSet
  | init_routine
  deriving DecidableEq, Repr

structure OnceTasks (n : Nat) where
  once_control : OnceControl
  pc : Fin n → OncePc
  inits : Nat

inductive OnceEvent (n : Nat) where
  | pthread_once (i : Fin n)
  | step (i : Fin n)
  deriving DecidableEq, Repr

namespace OnceTasks
variable {n : Nat} (s : OnceTasks n)

def start (n : Nat) : OnceTasks n := ⟨PTHREAD_ONCE_INIT, fun _ => .idle, 0⟩

def goto (i : Fin n) (pc : OncePc) : OnceTasks n := { s with pc := fun j => if j = i then pc else s.pc j }

def next (i : Fin n) : Option (OnceTasks n) :=
  match s.pc i with
  | .idle => none
  | .compareSet =>
      let (init_executed, res) := uxPortCompareSet s.once_control.init_executed 0 1
      some ({ s with once_control.init_executed := init_executed }.goto i (if res = 0 then .init_routine else .idle))
  | .init_routine => some ({ s with inits := s.inits + 1 }.goto i .idle)

end OnceTasks

def OnceEvent.run {n : Nat} (s : OnceTasks n) : OnceEvent n → Option (OnceTasks n)
  | .pthread_once i =>
      if s.pc i ≠ .idle then none
      else if s.once_control.is_initialized = 0 then some s
      else some (s.goto i .compareSet)
  | .step i => s.next i

end EspFirmware.Pthread
