import Mathlib.Data.Fintype.Card
import EspFirmware.Spec.Pthread

namespace EspFirmware.Pthread
open Lib Spec

variable {n : Nat}

def OnceTasks.busy (s : OnceTasks n) : Nat := (Finset.univ.filter fun i => s.pc i ≠ .idle).card

variable {s s' : OnceTasks n}

theorem busy_enters {i : Fin n} {pc : OncePc} (idle : s.pc i = .idle) (enters : pc ≠ .idle) :
    (s.goto i pc).busy = s.busy + 1 := by
  have added : (Finset.univ.filter fun j => (s.goto i pc).pc j ≠ .idle) =
      insert i (Finset.univ.filter fun j => s.pc j ≠ .idle) := by
    ext j
    rw [Finset.mem_filter_univ, Finset.mem_insert, Finset.mem_filter_univ]
    by_cases here : j = i <;> simp [OnceTasks.goto, here, enters]
  rw [OnceTasks.busy, added, Finset.card_insert_of_notMem (by simp [idle])]
  rfl

theorem busy_goesOn {i : Fin n} {pc : OncePc} (inside : s.pc i ≠ .idle) (stays : pc ≠ .idle) :
    (s.goto i pc).busy = s.busy := by
  refine congrArg Finset.card (Finset.filter_congr fun j _ => ?_)
  by_cases here : j = i <;> simp [OnceTasks.goto, here, inside, stays]

theorem busy_leaves {i : Fin n} (inside : s.pc i ≠ .idle) : (s.goto i .idle).busy + 1 = s.busy := by
  have out : (s.goto i .idle).pc i = .idle := by simp [OnceTasks.goto]
  have back := busy_enters out inside
  rw [← back]
  refine congrArg Finset.card (Finset.filter_congr fun j _ => ?_)
  by_cases here : j = i <;> simp [OnceTasks.goto, here]

theorem once_step {e : OnceEvent n} {calls : Nat} (initialized : s.once_control.is_initialized = 1)
    (counted : s.inits + s.busy = calls) (made : e.run s = some s') :
    s'.once_control.is_initialized = 1 ∧ s'.inits + s'.busy = calls + onceCalls [e] := by
  cases e with
  | pthread_once i =>
      by_cases idle : s.pc i = .idle
      · rw [OnceEvent.run, if_neg (by simpa using idle), if_neg (by rw [initialized]; decide)] at made
        cases made
        refine ⟨initialized, ?_⟩
        rw [busy_enters idle (by simp), ← counted]
        rfl
      · rw [OnceEvent.run, if_pos idle] at made
        cases made
  | step i =>
      rw [OnceEvent.run, OnceTasks.next] at made
      cases at_ : s.pc i with
      | idle =>
          rw [at_] at made
          cases made
      | compareSet =>
          rw [at_] at made
          cases made
          refine ⟨initialized, ?_⟩
          rw [busy_goesOn (by simp [at_]) (by simp)]
          exact counted
      | init_routine =>
          rw [at_] at made
          cases made
          refine ⟨initialized, ?_⟩
          have left : (OnceTasks.goto { s with inits := s.inits + 1 } i .idle).busy + 1 = s.busy :=
            busy_leaves (by simp [at_])
          have goal : s.inits + 1 + (OnceTasks.goto { s with inits := s.inits + 1 } i .idle).busy = calls := by omega
          exact goal

theorem once_run {events : List (OnceEvent n)} {calls : Nat} (initialized : s.once_control.is_initialized = 1)
    (counted : s.inits + s.busy = calls) (run : runOnce events s = some s') :
    s'.inits + s'.busy = calls + onceCalls events := by
  induction events generalizing s calls with
  | nil =>
      cases run
      exact counted
  | cons e rest ih =>
      rw [runOnce, runSteps_cons] at run
      obtain ⟨middle, made, later⟩ := Option.bind_eq_some_iff.mp run
      obtain ⟨initialized', counted'⟩ := once_step initialized counted made
      rw [ih initialized' counted' later, Nat.add_assoc, onceCalls, onceCalls, onceCalls, ← List.countP_append]
      rfl

/-- When all calls have returned, the routine was called once just if there was not a second call. -/
theorem routine_once_iff (events : List (OnceEvent n)) (run : runOnce events (OnceTasks.start n) = some s)
    (returned : ∀ i, s.pc i = .idle) :
    (0 < onceCalls events → s.inits = 1) ↔ onceCalls events ≤ 1 := by
  have none : s.busy = 0 := by
    rw [OnceTasks.busy, Finset.card_eq_zero, Finset.filter_eq_empty_iff]
    exact fun i _ => not_not_intro (returned i)
  have start : (OnceTasks.start n).inits + (OnceTasks.start n).busy = 0 := by
    simp [OnceTasks.start, OnceTasks.busy]
  have all := once_run rfl start run
  omega

theorem routine_once_iff_one :
    ∃ s, runOnce [.pthread_once 0, .step 0, .step 0] (OnceTasks.start 2) = some s ∧
      ((0 < onceCalls (n := 2) [.pthread_once 0, .step 0, .step 0] → s.inits = 1) ↔
        onceCalls (n := 2) [.pthread_once 0, .step 0, .step 0] ≤ 1) :=
  ⟨_, rfl, routine_once_iff _ rfl (by decide)⟩

/-- A second call calls the routine again. -/
theorem routine_twice :
    ∃ s, runOnce [.pthread_once 0, .step 0, .step 0, .pthread_once 1, .step 1, .step 1] (OnceTasks.start 2) = some s ∧
      (∀ i, s.pc i = .idle) ∧ s.inits = 2 := ⟨_, rfl, by decide, rfl⟩

end EspFirmware.Pthread
