import Mathlib.Data.Fintype.Basic

/-!
Condition variables (`pthread_cond_var.c`). The list of waiters is only used under the variable's lock, so that such a
section is one step of a task.
-/

namespace EspFirmware.Pthread

structure Timespec where
  tv_sec : Int
  tv_nsec : Int
  deriving DecidableEq, Repr

structure Timeval where
  tv_sec : Int
  tv_usec : Int
  deriving DecidableEq, Repr

def timerLess (a b : Timeval) : Bool := if a.tv_sec = b.tv_sec then a.tv_usec < b.tv_usec else a.tv_sec < b.tv_sec

def timersub (a b : Timeval) : Timeval :=
  if a.tv_usec - b.tv_usec < 0 then ⟨a.tv_sec - b.tv_sec - 1, a.tv_usec - b.tv_usec + 1000000⟩
  else ⟨a.tv_sec - b.tv_sec, a.tv_usec - b.tv_usec⟩

inductive Timeout where
  | portMAX_DELAY
  | ticks (n : Nat)
  deriving DecidableEq, Repr

/-- `none` if the time is over already. -/
def timeoutTicks (portTICK_PERIOD_MS : Nat) (deadline : Option Timespec) (cur_time : Timeval) : Option Timeout :=
  match deadline with
  | none => some .portMAX_DELAY
  | some deadline =>
      let abs_time : Timeval := ⟨deadline.tv_sec, deadline.tv_nsec.tdiv 1000⟩
      let diff_time := timersub abs_time cur_time
      let timeout_msec :=
        if timerLess abs_time cur_time then 0 else diff_time.tv_sec * 1000 + diff_time.tv_usec.tdiv 1000
      if timeout_msec ≤ 0 then none else some (.ticks (timeout_msec.toNat / portTICK_PERIOD_MS))

inductive CondRet where
  | ok
  | ETIMEDOUT
  deriving DecidableEq, Repr

inductive CondPc where
  | idle
  | enqueue (timeout_ticks : Timeout)
  | unlock (timeout_ticks : Timeout)
  | take (timeout_ticks : Timeout)
  | dequeue (ret : CondRet)
  | relock (ret : CondRet)
  deriving DecidableEq, Repr

/-- Tasks that use one condition variable and its mutex. The waiters are named by their tasks; a waiter has a semaphore
from when it is made until it is deleted, and it is given or not. -/
structure CondTasks (n : Nat) where
  waiter_list : List (Fin n)
  wait_sem : Fin n → Option Bool
  mutex : Option (Fin n)
  pc : Fin n → CondPc
  /-- a semaphore was given that is not there -/
  fault : Bool

inductive CondEvent (n : Nat) where
  | timedwait (i : Fin n) (deadline : Option Timespec) (cur_time : Timeval)
  | step (i : Fin n)
  | timeout (i : Fin n)
  | signal (i : Fin n)
  | broadcast (i : Fin n)
  | lock (i : Fin n)
  | unlock (i : Fin n)
  deriving DecidableEq, Repr

namespace CondTasks
variable {n : Nat} (s : CondTasks n)

def start (n : Nat) : CondTasks n := ⟨[], fun _ => none, none, fun _ => .idle, false⟩

def goto (i : Fin n) (pc : CondPc) : CondTasks n := { s with pc := fun j => if j = i then pc else s.pc j }

def setSem (i : Fin n) (sem : Option Bool) : CondTasks n :=
  { s with wait_sem := fun j => if j = i then sem else s.wait_sem j }

def xSemaphoreGive (i : Fin n) : CondTasks n :=
  match s.wait_sem i with
  | none => { s with fault := true }
  | some _ => s.setSem i (some true)

def pthread_cond_signal : CondTasks n :=
  match s.waiter_list with
  | [] => s
  | entry :: _ => s.xSemaphoreGive entry

def pthread_cond_broadcast : CondTasks n := s.waiter_list.foldl xSemaphoreGive s

def mutexUnlock (i : Fin n) : CondTasks n := if s.mutex = some i then { s with mutex := none } else s

def next (i : Fin n) : Option (CondTasks n) :=
  match s.pc i with
  | .idle => none
  | .enqueue timeout_ticks =>
      some ({ s.setSem i (some false) with waiter_list := s.waiter_list ++ [i] }.goto i (.unlock timeout_ticks))
  | .unlock timeout_ticks => some ((s.mutexUnlock i).goto i (.take timeout_ticks))
  | .take _ => if s.wait_sem i = some true then some ((s.setSem i (some false)).goto i (.dequeue .ok)) else none
  | .dequeue ret => some ({ s.setSem i none with waiter_list := s.waiter_list.erase i }.goto i (.relock ret))
  | .relock _ => if s.mutex = none then some ({ s with mutex := some i }.goto i .idle) else none

end CondTasks

def CondEvent.run {n : Nat} (portTICK_PERIOD_MS : Nat) (s : CondTasks n) : CondEvent n → Option (CondTasks n)
  | .timedwait i deadline cur_time =>
      if s.pc i = .idle then
        match timeoutTicks portTICK_PERIOD_MS deadline cur_time with
        | none => some s
        | some timeout_ticks => some (s.goto i (.enqueue timeout_ticks))
      else none
  | .step i => s.next i
  | .timeout i =>
      match s.pc i with
      | .take (.ticks _) => if s.wait_sem i = some true then none else some (s.goto i (.dequeue .ETIMEDOUT))
      | _ => none
  | .signal i => if s.pc i = .idle then some s.pthread_cond_signal else none
  | .broadcast i => if s.pc i = .idle then some s.pthread_cond_broadcast else none
  | .lock i => if s.pc i = .idle ∧ s.mutex = none then some { s with mutex := some i } else none
  | .unlock i => if s.pc i = .idle then some (s.mutexUnlock i) else none

end EspFirmware.Pthread
