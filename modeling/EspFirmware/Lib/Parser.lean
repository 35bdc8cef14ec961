import EspFirmware.Lib.Memory

/-!
Programs that look at a memory. What one of them gives depends on nothing but the places it looks at.
-/

namespace EspFirmware.Lib

inductive Look (α : Type) where
  | give (value : α)
  | read (place : Nat) (next : BitVec 8 → Look α)

namespace Look
variable {α β ι : Type}

def bind : Look α → (α → Look β) → Look β
  | .give a, f => f a
  | .read place next, f => .read place fun b => bind (next b) f

instance monad : Monad Look where
  pure := .give
  bind := bind

def byte (place : Nat) : Look (BitVec 8) := .read place .give

def value : Look α → Memory → α
  | .give a, _ => a
  | .read place next, mem => (next (mem place)).value mem

def places : Look α → Memory → List Nat
  | .give _, _ => []
  | .read place next, mem => place :: (next (mem place)).places mem

def each (f : ι → Look β) : List ι → Look (List β)
  | [] => pure []
  | i :: rest => do
      let b ← f i
      let more ← each f rest
      pure (b :: more)

theorem each_cons (f : ι → Look β) (i : ι) (rest : List ι) :
    each f (i :: rest) = f i >>= fun b => each f rest >>= fun more => pure (b :: more) := rfl

/-- The bytes at the places, as numbers, are the given ones; the first that is not ends the comparison. -/
def expect : List (Nat × Nat) → Look Bool
  | [] => pure true
  | (place, number) :: rest => do
      let b ← byte place
      if b.toNat ≠ number then pure false else expect rest

theorem expect_cons (place number : Nat) (rest : List (Nat × Nat)) :
    expect ((place, number) :: rest) =
      byte place >>= fun b => if b.toNat ≠ number then pure false else expect rest := rfl

variable {mem : Memory}

@[simp] theorem value_pure (a : α) : (pure a : Look α).value mem = a := rfl

@[simp] theorem value_byte (place : Nat) : (byte place).value mem = mem place := rfl

@[simp] theorem value_bind (p : Look α) (f : α → Look β) : (p >>= f).value mem = (f (p.value mem)).value mem := by
  change (bind p f).value mem = _
  induction p with
  | give a => rfl
  | read place next ih => exact ih (mem place)

@[simp] theorem value_each (f : ι → Look β) (is : List ι) : (each f is).value mem = is.map fun i => (f i).value mem := by
  induction is with
  | nil => rfl
  | cons i rest ih => simp only [each_cons, value_bind, value_pure, ih, List.map_cons]

theorem value_expect (expected : List (Nat × Nat)) :
    (expect expected).value mem = true ↔ ∀ e ∈ expected, (mem e.1).toNat = e.2 := by
  induction expected with
  | nil => exact ⟨fun _ => nofun, fun _ => rfl⟩
  | cons e rest ih =>
      obtain ⟨place, number⟩ := e
      rw [expect_cons, value_bind, value_byte, List.forall_mem_cons, ← ih]
      by_cases same : (mem place).toNat = number
      · rw [if_neg (not_not_intro same)]
        exact ⟨fun more => ⟨same, more⟩, And.right⟩
      · rw [if_pos same]
        exact ⟨nofun, fun both => absurd both.1 same⟩

@[simp] theorem places_pure (a : α) : (pure a : Look α).places mem = [] := rfl

@[simp] theorem places_byte (place : Nat) : (byte place).places mem = [place] := rfl

@[simp] theorem places_bind (p : Look α) (f : α → Look β) :
    (p >>= f).places mem = p.places mem ++ (f (p.value mem)).places mem := by
  change (bind p f).places mem = _
  induction p with
  | give a => rfl
  | read place next ih => exact congrArg (place :: ·) (ih (mem place))

@[simp] theorem places_each (f : ι → Look β) (is : List ι) :
    (each f is).places mem = is.flatMap fun i => (f i).places mem := by
  induction is with
  | nil => rfl
  | cons i rest ih => simp only [each_cons, places_bind, places_pure, ih, List.flatMap_cons, List.append_nil]

theorem places_expect {expected : List (Nat × Nat)} (all : (expect expected).value mem = true) :
    (expect expected).places mem = expected.map Prod.fst := by
  induction expected with
  | nil => rfl
  | cons e rest ih =>
      obtain ⟨place, number⟩ := e
      rw [value_expect, List.forall_mem_cons, ← value_expect] at all
      rw [expect_cons, places_bind, places_byte, value_byte, if_neg (not_not_intro all.1), ih all.2]
      rfl

theorem value_congr {p : Look α} {mem' : Memory} (same : ∀ place ∈ p.places mem, mem' place = mem place) :
    p.value mem' = p.value mem := by
  induction p with
  | give a => rfl
  | read place next ih =>
      have here := same place List.mem_cons_self
      rw [value, value, here]
      exact ih (mem place) fun other member => same other (List.mem_cons_of_mem _ member)

end Look

end EspFirmware.Lib

/-!
Parsers that say when they need more input. `Refines` is about what a parser has decided: it stays
decided whatever follows the input. `AtEnd` is about what it has not decided: how it can still come
out when one last token follows. Both are closed under the ways parsers are put together.
-/

namespace EspFirmware.Lib

inductive Parsed (τ α : Type) where
  | done (value : α) (rest : List τ)
  | fail
  | more
  deriving DecidableEq, Repr

def Parser (τ α : Type) := List τ → Parsed τ α

namespace Parser
variable {τ α β : Type}

def bind (p : Parser τ α) (f : α → Parser τ β) : Parser τ β := fun input =>
  match p input with
  | .done a rest => f a rest
  | .fail => .fail
  | .more => .more

instance : Monad (Parser τ) where
  pure a := fun input => .done a input
  bind := bind

def reject : Parser τ α := fun _ => .fail

def undecided : Parser τ α := fun _ => .more

def peek : Parser τ τ
  | [] => .more
  | t :: rest => .done t (t :: rest)

def next : Parser τ τ
  | [] => .more
  | t :: rest => .done t rest

def skipWhile (keep : τ → Bool) : Parser τ Unit
  | [] => .more
  | t :: rest => if keep t then skipWhile keep rest else .done () (t :: rest)

theorem skipWhile_cons (keep : τ → Bool) (t : τ) (rest : List τ) :
    skipWhile keep (t :: rest) = if keep t then skipWhile keep rest else .done () (t :: rest) := rfl

/-- At most `limit` leading tokens of the class, left in the input; a full run needs no look at
what follows it. -/
def lookWhile (keep : τ → Bool) : Nat → Parser τ (List τ)
  | 0, input => .done [] input
  | _ + 1, [] => .more
  | limit + 1, t :: rest =>
      if keep t then
        match lookWhile keep limit rest with
        | .done token _ => .done (t :: token) (t :: rest)
        | .fail => .fail
        | .more => .more
      else .done [] (t :: rest)

theorem lookWhile_cons (keep : τ → Bool) (limit : Nat) (t : τ) (rest : List τ) :
    lookWhile keep (limit + 1) (t :: rest) =
      if keep t then
        match lookWhile keep limit rest with
        | .done token _ => .done (t :: token) (t :: rest)
        | .fail => .fail
        | .more => .more
      else .done [] (t :: rest) := rfl

def advance (count : Nat) : Parser τ Unit := fun input =>
  if count ≤ input.length then .done () (input.drop count) else .more

/-- `p` decides everything `q` needs from it: whatever `p` decides on an input, `q` decides the
same on every extension of the input. -/
def Refines (p q : Parser τ α) : Prop :=
  ∀ input tail, (∀ a rest, p input = .done a rest → q (input ++ tail) = .done a (rest ++ tail)) ∧
    (p input = .fail → q (input ++ tail) = .fail)

theorem Refines.bind {p q : Parser τ α} {f g : α → Parser τ β} (hp : Refines p q)
    (hf : ∀ a, Refines (f a) (g a)) : Refines (p >>= f) (q >>= g) := by
  intro input tail
  have unfoldLeft : (p >>= f) input = Parser.bind p f input := rfl
  have unfoldRight : (q >>= g) (input ++ tail) = Parser.bind q g (input ++ tail) := rfl
  rw [unfoldLeft, unfoldRight]
  unfold Parser.bind
  cases first : p input with
  | done a rest => rw [(hp input tail).1 a rest first]; exact hf a rest tail
  | fail => rw [(hp input tail).2 first]; exact ⟨nofun, fun _ => rfl⟩
  | more => exact ⟨nofun, nofun⟩

theorem refines_pure (a : α) : Refines (pure a : Parser τ α) (pure a) := by
  intro input tail
  refine ⟨fun b rest same => ?_, nofun⟩
  cases same
  rfl

theorem refines_reject : Refines (reject : Parser τ α) reject :=
  fun _ _ => ⟨nofun, fun _ => rfl⟩

theorem refines_undecided (p : Parser τ α) : Refines undecided p := fun _ _ => ⟨nofun, nofun⟩

theorem refines_peek : Refines (peek : Parser τ τ) peek := by
  intro input tail
  cases input with
  | nil => exact ⟨nofun, nofun⟩
  | cons t rest =>
      refine ⟨fun a left same => ?_, nofun⟩
      cases same
      rfl

theorem refines_next : Refines (next : Parser τ τ) next := by
  intro input tail
  cases input with
  | nil => exact ⟨nofun, nofun⟩
  | cons t rest =>
      refine ⟨fun a left same => ?_, nofun⟩
      cases same
      rfl

theorem refines_skipWhile (keep : τ → Bool) : Refines (skipWhile keep) (skipWhile keep) := by
  intro input tail
  induction input with
  | nil => exact ⟨nofun, nofun⟩
  | cons t rest ih =>
      simp only [skipWhile_cons, List.cons_append]
      split
      · exact ih
      · refine ⟨fun a left same => ?_, nofun⟩
        cases same
        rfl

theorem refines_lookWhile (keep : τ → Bool) (limit : Nat) :
    Refines (lookWhile keep limit) (lookWhile keep limit) := by
  induction limit with
  | zero => exact refines_pure []
  | succ limit ih =>
      intro input tail
      cases input with
      | nil => exact ⟨nofun, nofun⟩
      | cons t rest =>
          simp only [lookWhile_cons, List.cons_append]
          split
          · cases run : lookWhile keep limit rest with
            | done token left =>
                rw [(ih rest tail).1 token left run]
                refine ⟨fun a out same => ?_, nofun⟩
                cases same
                rfl
            | fail =>
                rw [(ih rest tail).2 run]
                exact ⟨nofun, fun _ => rfl⟩
            | more => exact ⟨nofun, nofun⟩
          · refine ⟨fun a left same => ?_, nofun⟩
            cases same
            rfl

theorem lookWhile_rest {keep : τ → Bool} {limit : Nat} {input token rest : List τ}
    (run : lookWhile keep limit input = .done token rest) : rest = input ∧ token <+: input := by
  induction limit generalizing input token rest with
  | zero => cases run; exact ⟨rfl, List.nil_prefix⟩
  | succ limit ih =>
      cases input with
      | nil => contradiction
      | cons c left =>
          simp only [lookWhile_cons] at run
          split at run
          · split at run
            · rename_i token' rest' inner
              cases run
              exact ⟨rfl, List.cons_prefix_cons.mpr ⟨rfl, (ih inner).2⟩⟩
            · contradiction
            · contradiction
          · cases run; exact ⟨rfl, List.nil_prefix⟩

theorem refines_advance (count : Nat) : Refines (advance count : Parser τ Unit) (advance count) := by
  intro input tail
  simp only [advance, List.length_append]
  split
  · rename_i enough
    rw [if_pos (by omega), List.drop_append_of_le_length enough]
    refine ⟨fun a rest same => ?_, nofun⟩
    cases same
    rfl
  · exact ⟨nofun, nofun⟩

theorem refines_ite {p p' q q' : Parser τ α} (c : Prop) [Decidable c] (yes : Refines p q)
    (no : Refines p' q') : Refines (if c then p else p') (if c then q else q') := by
  split
  · exact yes
  · exact no

section
variable {t : τ}

/-- Where `p` needs more input and gets the one token `t`, a result of it is one of `allowed`. -/
def AtEnd (t : τ) (allowed : α → List τ → Prop) (p : Parser τ α) : Prop :=
  ∀ input, p input = .more → ∀ a rest, p (input ++ [t]) = .done a rest → allowed a rest

theorem AtEnd.bind_of_reached {p : Parser τ α} {f : α → Parser τ β} {allowed : α → List τ → Prop}
    {allowed' : β → List τ → Prop} (stable : Refines p p) (first : AtEnd t allowed p)
    (after : ∀ a rest, allowed a rest → ∀ b rest', f a rest = .done b rest' → allowed' b rest')
    (second : ∀ input a rest, p input = .done a rest → f a rest = .more →
      ∀ b rest', f a (rest ++ [t]) = .done b rest' → allowed' b rest') :
    AtEnd t allowed' (p >>= f) := by
  intro input undecided b rest' result
  change Parser.bind p f input = .more at undecided
  change Parser.bind p f (input ++ [t]) = .done b rest' at result
  unfold Parser.bind at undecided result
  cases run : p input with
  | done a rest =>
      rw [run] at undecided
      rw [(stable input [t]).1 a rest run] at result
      exact second input a rest run undecided b rest' result
  | fail => rw [run] at undecided; contradiction
  | more =>
      cases more : p (input ++ [t]) with
      | done a rest =>
          rw [more] at result
          exact after a rest (first input run a rest more) b rest' result
      | fail => rw [more] at result; contradiction
      | more => rw [more] at result; contradiction

theorem AtEnd.bind {p : Parser τ α} {f : α → Parser τ β} {allowed : α → List τ → Prop}
    {allowed' : β → List τ → Prop} (first : AtEnd t allowed p) (stable : Refines p p)
    (after : ∀ a rest, allowed a rest → ∀ b rest', f a rest = .done b rest' → allowed' b rest')
    (second : ∀ a, AtEnd t allowed' (f a)) : AtEnd t allowed' (p >>= f) :=
  .bind_of_reached stable first after fun _ a rest _ => second a rest

theorem atEnd_pure (allowed : α → List τ → Prop) (a : α) : AtEnd t allowed (pure a) :=
  fun _ undecided => nomatch undecided

theorem atEnd_reject (allowed : α → List τ → Prop) : AtEnd t allowed reject :=
  fun _ undecided => nomatch undecided

theorem atEnd_undecided (allowed : α → List τ → Prop) : AtEnd t allowed undecided :=
  fun _ _ _ _ result => nomatch result

theorem atEnd_next : AtEnd t (fun a rest => a = t ∧ rest = []) next := by
  intro input undecided a rest result
  cases input with
  | nil => cases result; exact ⟨rfl, rfl⟩
  | cons c left => cases undecided

theorem atEnd_peek : AtEnd t (fun a rest => a = t ∧ rest = [t]) peek := by
  intro input undecided a rest result
  cases input with
  | nil => cases result; exact ⟨rfl, rfl⟩
  | cons c left => cases undecided

theorem atEnd_skipWhile {keep : τ → Bool} (kept : keep t = true) :
    AtEnd t (fun _ _ => False) (skipWhile keep) := by
  intro input
  induction input with
  | nil => simp [skipWhile, kept]
  | cons c left ih =>
      simp only [skipWhile_cons, List.cons_append]
      split
      · exact ih
      · exact nofun

theorem atEnd_lookWhile {keep : τ → Bool} (stop : keep t = false) (limit : Nat) :
    AtEnd t (fun token rest => rest = token ++ [t] ∧ ∀ c ∈ token, keep c = true)
      (lookWhile keep limit) := by
  induction limit with
  | zero => exact fun _ undecided => nomatch undecided
  | succ limit ih =>
      intro input undecided token rest result
      cases input with
      | nil =>
          rw [List.nil_append, lookWhile_cons, stop] at result
          cases result
          simp
      | cons c left =>
          simp only [lookWhile_cons, List.cons_append] at undecided result
          split at undecided
          · rename_i kept
            rw [if_pos kept] at result
            split at undecided
            · contradiction
            · contradiction
            · rename_i short
              split at result
              · rename_i token' rest' run
                cases result
                obtain ⟨same, all⟩ := ih left short token' rest' run
                have unread := (lookWhile_rest run).1
                simp_all
              · contradiction
              · contradiction
          · contradiction

theorem AtEnd.ite {p q : Parser τ α} {allowed : α → List τ → Prop} (c : Prop) [Decidable c]
    (yes : AtEnd t allowed p) (no : AtEnd t allowed q) : AtEnd t allowed (if c then p else q) := by
  split
  · exact yes
  · exact no

theorem AtEnd.mono {p : Parser τ α} {allowed allowed' : α → List τ → Prop}
    (p_ok : AtEnd t allowed p) (weaker : ∀ a rest, allowed a rest → allowed' a rest) :
    AtEnd t allowed' p :=
  fun input undecided a rest result => weaker a rest (p_ok input undecided a rest result)

end

end Parser
end EspFirmware.Lib
