import Mathlib.Data.List.OfFn

/-!
Bounded loops over `Fin n`: the invariant rule of a counting loop, and what a search loop that
stops at the first hit returns. Loops that end when their body leaves them, by a measure.
-/

namespace EspFirmware.Lib

theorem foldl_finRange_invariant {α : Type*} {m : Nat} (inv : Nat → α → Prop)
    (body : α → Fin m → α) (init : α) (start : inv 0 init)
    (step : ∀ (i : Fin m) (a : α), inv i a → inv (i + 1) (body a i)) :
    inv m ((List.finRange m).foldl body init) := by
  induction m with
  | zero => simpa using start
  | succ m ih =>
      rw [List.finRange_succ_last, List.foldl_append, List.foldl_map]
      have before := ih (fun a i => body a i.castSucc) (fun i a h => step i.castSucc a h)
      exact step (Fin.last m) _ before

theorem find?_finRange_eq_some {m : Nat} {p : Fin m → Bool} {i : Fin m} :
    (List.finRange m).find? p = some i ↔ p i = true ∧ ∀ j < i, p j = false := by
  rw [List.find?_eq_some_iff_getElem]
  constructor
  · rintro ⟨hit, k, bound, located, misses⟩
    have same : k = i.val := by simpa using congrArg Fin.val located
    subst same
    refine ⟨hit, fun j before => ?_⟩
    simpa using misses j before
  · rintro ⟨hit, misses⟩
    refine ⟨hit, i, by simp, by simp, fun j before => ?_⟩
    simpa using misses ⟨j, before.trans i.isLt⟩ before

theorem find?_finRange_eq_none {m : Nat} {p : Fin m → Bool} :
    (List.finRange m).find? p = none ↔ ∀ i, p i = false := by
  simp

section
variable {State : Type} (body : State → Option State)

/-- The state in which the loop is left, if that takes less than so many turns. -/
def leaveWithin : Nat → State → Option State
  | 0, _ => none
  | fuel + 1, s =>
      match body s with
      | none => some s
      | some s' => leaveWithin fuel s'

variable {body}

theorem leaveWithin_succ (fuel : Nat) (s : State) :
    leaveWithin body (fuel + 1) s =
      match body s with
      | none => some s
      | some s' => leaveWithin body fuel s' := rfl

theorem leaveWithin_of_measure (measure : State → Nat)
    (smaller : ∀ s s', body s = some s' → measure s' < measure s) {fuel : Nat} {s : State} (enough : measure s < fuel) :
    ∃ s', leaveWithin body fuel s = some s' := by
  induction fuel generalizing s with
  | zero => exact absurd enough (Nat.not_lt_zero _)
  | succ fuel ih =>
      rw [leaveWithin_succ]
      cases turn : body s with
      | none => exact ⟨s, rfl⟩
      | some s' => exact ih (Nat.lt_of_lt_of_le (smaller s s' turn) (Nat.le_of_lt_succ enough))

theorem leaveWithin_keeps (inv : State → Prop) (keeps : ∀ s s', inv s → body s = some s' → inv s') {fuel : Nat}
    {s s' : State} (start : inv s) (leaves : leaveWithin body fuel s = some s') : inv s' := by
  induction fuel generalizing s with
  | zero => cases leaves
  | succ fuel ih =>
      rw [leaveWithin_succ] at leaves
      cases turn : body s with
      | none =>
          rw [turn] at leaves
          cases leaves
          exact start
      | some middle =>
          rw [turn] at leaves
          exact ih (keeps s middle start turn) leaves

end

end EspFirmware.Lib
