/-!
Programs over a volatile and a durable state. Every change of the durable state is one step, and a
run keeps the durable state after each of its steps: these are the states a power failure can leave
behind. A program ends with a value, with an error it reports, or with a fault (a failed assertion
or a loop that does not end).
-/

namespace EspFirmware.Lib

inductive Outcome (ε α : Type) where
  | ok (value : α)
  | err (e : ε)
  | fault
  deriving DecidableEq, Repr

def Outcome.map {ε α β : Type} (f : α → β) : Outcome ε α → Outcome ε β
  | .ok a => .ok (f a)
  | .err e => .err e
  | .fault => .fault

structure Ran (ρ δ ε α : Type) where
  outcome : Outcome ε α
  volatile : ρ
  durable : δ
  steps : List δ

def Prog (ρ δ ε α : Type) := ρ → δ → Ran ρ δ ε α

namespace Prog
variable {ρ δ ε α β : Type}

def ret (a : α) : Prog ρ δ ε α := fun r d => ⟨.ok a, r, d, []⟩

def bind (p : Prog ρ δ ε α) (f : α → Prog ρ δ ε β) : Prog ρ δ ε β := fun r d =>
  match p r d with
  | ⟨.ok a, r', d', steps⟩ =>
      let next := f a r' d'
      { next with steps := steps ++ next.steps }
  | ⟨.err e, r', d', steps⟩ => ⟨.err e, r', d', steps⟩
  | ⟨.fault, r', d', steps⟩ => ⟨.fault, r', d', steps⟩

instance : Monad (Prog ρ δ ε) where
  pure := ret
  bind := bind

def throw (e : ε) : Prog ρ δ ε α := fun r d => ⟨.err e, r, d, []⟩

def fault : Prog ρ δ ε α := fun r d => ⟨.fault, r, d, []⟩

def assert (c : Prop) [Decidable c] : Prog ρ δ ε Unit := if c then pure () else fault

def attempt (p : Prog ρ δ ε α) : Prog ρ δ ε (Except ε α) := fun r d =>
  match p r d with
  | ⟨.ok a, r', d', steps⟩ => ⟨.ok (.ok a), r', d', steps⟩
  | ⟨.err e, r', d', steps⟩ => ⟨.ok (.error e), r', d', steps⟩
  | ⟨.fault, r', d', steps⟩ => ⟨.fault, r', d', steps⟩

def get : Prog ρ δ ε ρ := fun r d => ⟨.ok r, r, d, []⟩

def modify (f : ρ → ρ) : Prog ρ δ ε Unit := fun r d => ⟨.ok (), f r, d, []⟩

def read : Prog ρ δ ε δ := fun r d => ⟨.ok d, r, d, []⟩

def write (f : δ → δ) : Prog ρ δ ε Unit := fun r d => ⟨.ok (), r, f d, [f d]⟩

def zoom {ρ' δ' : Type} (getR : ρ' → ρ) (setR : ρ → ρ' → ρ') (getD : δ' → δ) (setD : δ → δ' → δ')
    (p : Prog ρ δ ε α) : Prog ρ' δ' ε α := fun r d =>
  let ran := p (getR r) (getD d)
  ⟨ran.outcome, setR ran.volatile r, setD ran.durable d, ran.steps.map fun x => setD x d⟩

/-- The durable state when the power goes out after `count` steps, if the run gets that far. -/
def cutAfter (p : Prog ρ δ ε α) (count : Nat) (r : ρ) (d : δ) : Option δ := (d :: (p r d).steps)[count]?

/-- A program that takes no step and ends with a value. -/
theorem bind_quiet {p : Prog ρ δ ε α} {f : α → Prog ρ δ ε β} {r : ρ} {d : δ} {a : α} {r' : ρ}
    (ran : p r d = ⟨.ok a, r', d, []⟩) : (p >>= f) r d = f a r' d := by
  change bind p f r d = _
  unfold bind
  rw [ran]
  rfl

theorem bind_err {p : Prog ρ δ ε α} {f : α → Prog ρ δ ε β} {r r' : ρ} {d d' : δ} {e : ε} {steps : List δ}
    (ran : p r d = ⟨.err e, r', d', steps⟩) : (p >>= f) r d = ⟨.err e, r', d', steps⟩ := by
  change bind p f r d = _
  unfold bind
  rw [ran]

theorem bind_pure_ran (p : Prog ρ δ ε α) (g : α → β) (r : ρ) (d : δ) :
    (p >>= fun a => pure (g a)) r d = { p r d with outcome := (p r d).outcome.map g } := by
  change bind p _ r d = _
  unfold bind
  cases ran : p r d with
  | mk o r' d' steps =>
      cases o with
      | ok a => exact congrArg _ (List.append_nil steps)
      | err e => rfl
      | fault => rfl

def last (d : δ) (steps : List δ) : δ := steps.foldl (fun _ x => x) d

@[simp] theorem last_append (d : δ) (a b : List δ) : last d (a ++ b) = last (last d a) b := List.foldl_append

theorem last_map {δ' : Type} (f : δ → δ') (d : δ) (steps : List δ) : last (f d) (steps.map f) = f (last d steps) := by
  induction steps generalizing d with
  | nil => rfl
  | cons x rest ih => exact ih x

theorem getElem?_last (d : δ) (steps : List δ) : (d :: steps)[steps.length]? = some (last d steps) := by
  induction steps generalizing d with
  | nil => rfl
  | cons x rest ih => exact ih x

inductive Calls (call : δ → List δ → Prop) : δ → List δ → Prop where
  | nil (d : δ) : Calls call d []
  | cons {d : δ} {a b : List δ} (now : call d a) (later : Calls call (last d a) b) : Calls call d (a ++ b)

theorem Calls.single {call : δ → List δ → Prop} {d : δ} {a : List δ} (now : call d a) : Calls call d a := by
  have one := Calls.cons now (Calls.nil _)
  rwa [List.append_nil] at one

theorem Calls.append {call : δ → List δ → Prop} {d : δ} {a b : List δ} (early : Calls call d a)
    (late : Calls call (last d a) b) : Calls call d (a ++ b) := by
  induction early with
  | nil d => exact late
  | cons now _ ih =>
      rw [List.append_assoc]
      refine .cons now (ih ?_)
      rwa [last_append] at late

/-- The run ends in a state of `post`, after each of its steps the durable state is in `cut`, and the steps
are those of calls of one kind. -/
structure wp (call : δ → List δ → Prop) (p : Prog ρ δ ε α) (post : Outcome ε α → ρ → δ → Prop) (cut : δ → Prop)
    (r : ρ) (d : δ) : Prop where
  ends : post (p r d).outcome (p r d).volatile (p r d).durable
  stops : ∀ x ∈ (p r d).steps, cut x
  calls : Calls call d (p r d).steps
  last : (p r d).durable = last d (p r d).steps

section
variable {call : δ → List δ → Prop} {post : Outcome ε α → ρ → δ → Prop} {cut : δ → Prop} {r : ρ} {d : δ}

theorem wp_mono {p : Prog ρ δ ε α} {post' : Outcome ε α → ρ → δ → Prop} {cut' : δ → Prop}
    (run : wp call p post cut r d) (ends : ∀ o r d, post o r d → post' o r d)
    (stops : ∀ d, cut d → cut' d) : wp call p post' cut' r d :=
  ⟨ends _ _ _ run.ends, fun x step => stops x (run.stops x step), run.calls, run.last⟩

theorem wp_congr {p q : Prog ρ δ ε α} (same : p r d = q r d) (run : wp call q post cut r d) :
    wp call p post cut r d := by
  obtain ⟨ends, stops, calls, last_⟩ := run
  constructor <;> rw [same] <;> assumption

theorem wp_of_ran {p : Prog ρ δ ε α} {o : Outcome ε α} {r' : ρ} {d' : δ} {steps : List δ}
    (ran : p r d = ⟨o, r', d', steps⟩) (ends : post o r' d') (stops : ∀ x ∈ steps, cut x)
    (calls : Calls call d steps) (last_ : d' = last d steps) : wp call p post cut r d := by
  constructor <;> rw [ran] <;> assumption

theorem wp_still {p : Prog ρ δ ε α} {o : Outcome ε α} {r' : ρ} (ran : p r d = ⟨o, r', d, []⟩)
    (holds : post o r' d) : wp call p post cut r d :=
  wp_of_ran ran holds nofun (.nil d) rfl

theorem wp_pure (a : α) (holds : post (.ok a) r d) : wp call (pure a) post cut r d := wp_still rfl holds

theorem wp_throw (e : ε) (holds : post (.err e) r d) : wp call (throw e) post cut r d := wp_still rfl holds

theorem wp_bind {p : Prog ρ δ ε β} {f : β → Prog ρ δ ε α}
    (run : wp call p (fun o r d => match o with
      | .ok a => wp call (f a) post cut r d
      | .err e => post (.err e) r d
      | .fault => post .fault r d) cut r d) : wp call (p >>= f) post cut r d := by
  obtain ⟨ends, stops, calls, last_⟩ := run
  change wp call (bind p f) post cut r d
  cases ran : p r d with
  | mk o r' d' steps =>
      rw [ran] at ends stops calls last_
      dsimp only at last_
      subst last_
      cases o with
      | ok a =>
          have bound : bind p f r d = { f a r' (last d steps) with
              steps := steps ++ (f a r' (last d steps)).steps } := by
            unfold bind
            rw [ran]
          refine wp_of_ran bound ends.ends ?_ (calls.append ends.calls) (ends.last.trans (last_append _ _ _).symm)
          intro x step
          rcases List.mem_append.mp step with early | late
          · exact stops x early
          · exact ends.stops x late
      | err e =>
          have bound : bind p f r d = ⟨.err e, r', last d steps, steps⟩ := by
            unfold bind
            rw [ran]
          exact wp_of_ran bound ends stops calls rfl
      | fault =>
          have bound : bind p f r d = ⟨.fault, r', last d steps, steps⟩ := by
            unfold bind
            rw [ran]
          exact wp_of_ran bound ends stops calls rfl

theorem wp_attempt {p : Prog ρ δ ε α} {post : Outcome ε (Except ε α) → ρ → δ → Prop}
    (run : wp call p (fun o r d => match o with
      | .ok a => post (.ok (.ok a)) r d
      | .err e => post (.ok (.error e)) r d
      | .fault => post .fault r d) cut r d) : wp call (attempt p) post cut r d := by
  obtain ⟨ends, stops, calls, last_⟩ := run
  cases ran : p r d with
  | mk o r' d' steps =>
      rw [ran] at ends stops calls last_
      cases o with
      | ok a =>
          have tried : attempt p r d = ⟨.ok (.ok a), r', d', steps⟩ := by
            unfold attempt
            rw [ran]
          exact wp_of_ran tried ends stops calls last_
      | err e =>
          have tried : attempt p r d = ⟨.ok (.error e), r', d', steps⟩ := by
            unfold attempt
            rw [ran]
          exact wp_of_ran tried ends stops calls last_
      | fault =>
          have tried : attempt p r d = ⟨.fault, r', d', steps⟩ := by
            unfold attempt
            rw [ran]
          exact wp_of_ran tried ends stops calls last_

theorem wp_get {post : Outcome ε ρ → ρ → δ → Prop} (holds : post (.ok r) r d) :
    wp call get post cut r d := wp_still rfl holds

theorem wp_read {post : Outcome ε δ → ρ → δ → Prop} (holds : post (.ok d) r d) :
    wp call read post cut r d := wp_still rfl holds

theorem wp_modify {post : Outcome ε Unit → ρ → δ → Prop} {f : ρ → ρ} (holds : post (.ok ()) (f r) d) :
    wp call (modify f) post cut r d := wp_still rfl holds

theorem wp_write {post : Outcome ε Unit → ρ → δ → Prop} {f : δ → δ} (now : call d [f d])
    (holds : post (.ok ()) r (f d)) (stops : cut (f d)) : wp call (write f) post cut r d :=
  ⟨holds, fun _ step => List.mem_singleton.mp step ▸ stops, .single now, rfl⟩

theorem wp_assert {post : Outcome ε Unit → ρ → δ → Prop} {c : Prop} [Decidable c] (true_ : c)
    (holds : post (.ok ()) r d) : wp call (assert c) post cut r d := by
  unfold assert
  rw [if_pos true_]
  exact wp_pure () holds

theorem wp_of_map {p : Prog ρ δ ε β} {g : β → α}
    (run : wp call (p >>= fun b => pure (g b)) post cut r d) : wp call p (fun o => post (o.map g)) cut r d := by
  obtain ⟨ends, stops, calls, last_⟩ := run
  rw [bind_pure_ran] at ends stops calls last_
  exact ⟨ends, stops, calls, last_⟩

theorem wp_zoom {ρ' δ' : Type} {call' : δ' → List δ' → Prop} {getR : ρ' → ρ} {setR : ρ → ρ' → ρ'} {getD : δ' → δ}
    {setD : δ → δ' → δ'} {p : Prog ρ δ ε α} {post : Outcome ε α → ρ' → δ' → Prop} {cut : δ' → Prop}
    {r : ρ'} {d : δ'} (same : setD (getD d) d = d)
    (lift : ∀ x steps, call x steps → call' (setD x d) (steps.map fun y => setD y d))
    (run : wp call p (fun o x y => post o (setR x r) (setD y d)) (fun y => cut (setD y d)) (getR r) (getD d)) :
    wp call' (zoom getR setR getD setD p) post cut r d := by
  obtain ⟨ends, stops, calls, last_⟩ := run
  have lifted {x : δ} {steps : List δ} (calls : Calls call x steps) :
      Calls call' (setD x d) (steps.map fun y => setD y d) := by
    induction calls with
    | nil x => exact .nil _
    | cons now _ ih =>
        rw [List.map_append]
        refine .cons (lift _ _ now) ?_
        rw [last_map (fun y => setD y d)]
        exact ih
  refine ⟨ends, fun x step => ?_, ?_, ?_⟩
  · obtain ⟨y, before, rfl⟩ := List.mem_map.mp step
    exact stops y before
  · have all := lifted calls
    rwa [same] at all
  · have end_ := last_map (fun y => setD y d) (getD d) (p (getR r) (getD d)).steps
    rw [same] at end_
    rw [zoom]
    dsimp only
    rw [end_, last_]

theorem wp_cutAfter {p : Prog ρ δ ε α} (run : wp call p post cut r d) (start : cut d) {count : Nat} {x : δ}
    (stopped : cutAfter p count r d = some x) : cut x := by
  rcases List.mem_cons.mp (List.mem_of_getElem? stopped) with rfl | step
  · exact start
  · exact run.stops x step

theorem wp_cutAfter_end {p : Prog ρ δ ε α} (run : wp call p post cut r d) :
    cutAfter p (p r d).steps.length r d = some (p r d).durable := by
  rw [run.last]
  exact getElem?_last d _

end

def Keeps (inv : ρ → Prop) (p : Prog ρ δ ε α) : Prop := ∀ r d, inv r → inv (p r d).volatile

section
variable {inv : ρ → Prop}

theorem keeps_pure (a : α) : Keeps inv (pure a : Prog ρ δ ε α) := fun _ _ holds => holds

theorem keeps_throw (e : ε) : Keeps inv (throw e : Prog ρ δ ε α) := fun _ _ holds => holds

theorem keeps_fault : Keeps inv (fault : Prog ρ δ ε α) := fun _ _ holds => holds

theorem keeps_get : Keeps inv (get : Prog ρ δ ε ρ) := fun _ _ holds => holds

theorem keeps_read : Keeps inv (read : Prog ρ δ ε δ) := fun _ _ holds => holds

theorem keeps_write (f : δ → δ) : Keeps inv (write f : Prog ρ δ ε Unit) := fun _ _ holds => holds

theorem keeps_modify {f : ρ → ρ} (kept : ∀ r, inv r → inv (f r)) : Keeps inv (modify f : Prog ρ δ ε Unit) :=
  fun r _ holds => kept r holds

theorem keeps_assert (c : Prop) [Decidable c] : Keeps inv (assert c : Prog ρ δ ε Unit) := by
  unfold assert
  split
  · exact keeps_pure ()
  · exact keeps_fault

theorem Keeps.bind {p : Prog ρ δ ε α} {f : α → Prog ρ δ ε β} (first : Keeps inv p) (then_ : ∀ a, Keeps inv (f a)) :
    Keeps inv (p >>= f) := by
  intro r d holds
  have middle := first r d holds
  change inv (Prog.bind p f r d).volatile
  unfold Prog.bind
  cases ran : p r d with
  | mk o r' d' steps =>
      rw [ran] at middle
      cases o with
      | ok a => exact then_ a r' d' middle
      | err e => exact middle
      | fault => exact middle

theorem Keeps.attempt {p : Prog ρ δ ε α} (kept : Keeps inv p) : Keeps inv (attempt p) := by
  intro r d holds
  have after := kept r d holds
  unfold Prog.attempt
  cases ran : p r d with
  | mk o r' d' steps =>
      rw [ran] at after
      cases o <;> exact after

theorem Keeps.ite {c : Prop} [Decidable c] {p q : Prog ρ δ ε α} (yes : Keeps inv p) (no : Keeps inv q) :
    Keeps inv (if c then p else q) := by
  split
  · exact yes
  · exact no

end

end Prog
end EspFirmware.Lib
