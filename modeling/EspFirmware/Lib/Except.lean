import Mathlib.Data.List.Forall2

/-!
Computations that may fail: what it means that one succeeds.
-/

namespace EspFirmware.Lib

variable {ε α β γ : Type}

theorem bind_eq_ok {x : Except ε α} {f : α → Except ε β} {b : β} :
    x >>= f = .ok b ↔ ∃ a, x = .ok a ∧ f a = .ok b := by
  cases x with
  | error e =>
      constructor
      · intro h
        cases h
      · rintro ⟨a, none, -⟩
        cases none
  | ok a =>
      constructor
      · intro h
        exact ⟨a, rfl, h⟩
      · rintro ⟨_, same, h⟩
        cases same
        exact h

theorem mapM_eq_ok {f : α → Except ε β} {as : List α} {bs : List β} :
    as.mapM f = .ok bs ↔ List.Forall₂ (fun a b => f a = .ok b) as bs := by
  induction as generalizing bs with
  | nil =>
      rw [List.forall₂_nil_left_iff]
      constructor
      · intro done
        cases done
        rfl
      · rintro rfl
        rfl
  | cons a as ih =>
      rw [List.mapM_cons, bind_eq_ok, List.forall₂_cons_left_iff]
      constructor
      · rintro ⟨b, first, rest⟩
        obtain ⟨bs, others, done⟩ := bind_eq_ok.mp rest
        cases done
        exact ⟨b, bs, first, ih.mp others, rfl⟩
      · rintro ⟨b, bs, first, others, rfl⟩
        refine ⟨b, first, ?_⟩
        rw [ih.mpr others]
        rfl

theorem forM_eq_ok {f : α → Except ε Unit} {as : List α} : forM as f = .ok () ↔ ∀ a ∈ as, f a = .ok () := by
  induction as with
  | nil => simp [pure, Except.pure]
  | cons a as ih =>
      simp only [List.forM_cons, bind_eq_ok, ih, List.mem_cons, forall_eq_or_imp]
      constructor
      · rintro ⟨_, first, rest⟩
        exact ⟨first, rest⟩
      · rintro ⟨first, rest⟩
        exact ⟨_, first, rest⟩

end EspFirmware.Lib
