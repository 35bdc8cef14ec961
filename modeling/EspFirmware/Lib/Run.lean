/-!
Runs of a machine whose steps can fail, and the rules by which an invariant holds of whole runs.
-/

namespace EspFirmware.Lib

section
variable {State Event : Type} (step : State → Event → Option State)

def runSteps : List Event → State → Option State
  | [], s => some s
  | e :: rest, s => (step s e).bind (runSteps rest)

theorem runSteps_cons (e : Event) (rest : List Event) (s : State) :
    runSteps step (e :: rest) s = (step s e).bind (runSteps step rest) := rfl

def EachStep (may : State → Event → Prop) : List Event → State → Prop
  | [], _ => True
  | e :: rest, s => may s e ∧ ∀ s', step s e = some s' → EachStep may rest s'

instance EachStep.decide (may : State → Event → Prop) [∀ s e, Decidable (may s e)] :
    (events : List Event) → (s : State) → Decidable (EachStep step may events s)
  | [], _ => isTrue trivial
  | e :: rest, s =>
      match made : step s e with
      | none =>
          decidable_of_iff (may s e) ⟨fun ok => ⟨ok, fun s' later => by rw [made] at later; cases later⟩, And.left⟩
      | some s' =>
          have := EachStep.decide may rest s'
          decidable_of_iff (may s e ∧ EachStep step may rest s')
            ⟨fun ok => ⟨ok.1, fun s'' later => by rw [made] at later; cases later; exact ok.2⟩,
              fun all => ⟨all.1, all.2 s' made⟩⟩

variable {step} {may : State → Event → Prop} {inv : State → Prop} {events : List Event} {s : State}

theorem EachStep.and {also : State → Event → Prop} (first : EachStep step may events s)
    (second : EachStep step also events s) : EachStep step (fun s e => may s e ∧ also s e) events s := by
  induction events generalizing s with
  | nil => trivial
  | cons e rest ih => exact ⟨⟨first.1, second.1⟩, fun s' made => ih (first.2 s' made) (second.2 s' made)⟩

theorem EachStep.mono {also : State → Event → Prop} (each : EachStep step may events s)
    (weaker : ∀ s e, may s e → also s e) : EachStep step also events s := by
  induction events generalizing s with
  | nil => trivial
  | cons e rest ih => exact ⟨weaker s e each.1, fun s' made => ih (each.2 s' made)⟩

theorem runSteps_snoc (events : List Event) (e : Event) (s : State) :
    runSteps step (events ++ [e]) s = (runSteps step events s).bind fun s' => step s' e := by
  induction events generalizing s with
  | nil => exact Option.bind_fun_some (step s e)
  | cons first rest ih =>
      rw [List.cons_append, runSteps_cons, runSteps_cons, Option.bind_assoc]
      exact congrArg (step s first).bind (funext ih)

theorem EachStep.front {rest : List Event} (each : EachStep step may (events ++ rest) s) : EachStep step may events s := by
  induction events generalizing s with
  | nil => trivial
  | cons e events ih => exact ⟨each.1, fun s' made => ih (each.2 s' made)⟩

theorem EachStep.back {rest : List Event} {s' : State} (each : EachStep step may (events ++ rest) s)
    (run : runSteps step events s = some s') : EachStep step may rest s' := by
  induction events generalizing s with
  | nil =>
      cases run
      exact each
  | cons e events ih =>
      rw [runSteps_cons] at run
      obtain ⟨t, made, later⟩ := Option.bind_eq_some_iff.mp run
      exact ih (each.2 t made) later

theorem runSteps_simulates {State' Event' : Type} {step' : State' → Event' → Option State'} {rel : State → State' → Prop}
    (f : Event → Event')
    (simulates : ∀ s t e s', rel s t → may s e → step s e = some s' → ∃ t', step' t (f e) = some t' ∧ rel s' t')
    {t : State'} {s' : State} (start : rel s t) (each : EachStep step may events s)
    (run : runSteps step events s = some s') : ∃ t', runSteps step' (events.map f) t = some t' ∧ rel s' t' := by
  induction events generalizing s t with
  | nil =>
      cases run
      exact ⟨t, rfl, start⟩
  | cons e rest ih =>
      rw [runSteps_cons] at run
      obtain ⟨middle, made, later⟩ := Option.bind_eq_some_iff.mp run
      obtain ⟨t', made', related⟩ := simulates s t e middle start each.1 made
      obtain ⟨t'', run', related'⟩ := ih related (each.2 middle made) later
      refine ⟨t'', ?_, related'⟩
      rw [List.map_cons, runSteps_cons, made']
      exact run'

/-- No step fails where each can be made from a state with the invariant. -/
theorem runSteps_total (makes : ∀ s e, inv s → may s e → ∃ s', step s e = some s' ∧ inv s') (start : inv s)
    (each : EachStep step may events s) : ∃ s', runSteps step events s = some s' ∧ inv s' := by
  induction events generalizing s with
  | nil => exact ⟨s, rfl, start⟩
  | cons e rest ih =>
      obtain ⟨s', made, inv'⟩ := makes s e start each.1
      obtain ⟨s'', run, inv''⟩ := ih inv' (each.2 s' made)
      refine ⟨s'', ?_, inv''⟩
      rw [runSteps_cons, made]
      exact run

theorem runSteps_keeps (keeps : ∀ s e s', inv s → may s e → step s e = some s' → inv s') (start : inv s)
    (each : EachStep step may events s) {s' : State} (run : runSteps step events s = some s') : inv s' := by
  induction events generalizing s with
  | nil =>
      cases run
      exact start
  | cons e rest ih =>
      rw [runSteps_cons] at run
      obtain ⟨t, made, later⟩ := Option.bind_eq_some_iff.mp run
      exact ih (keeps s e t start each.1 made) (each.2 t made) later

theorem EachStep.any (any : ∀ s e, may s e) : EachStep step may events s := by
  induction events generalizing s with
  | nil => trivial
  | cons e rest ih => exact ⟨any s e, fun _ _ => ih⟩

/-- What every step keeps holds at the end of all runs if the steps need nothing else. -/
theorem runSteps_always (keeps : ∀ s e s', inv s → step s e = some s' → inv s') (start : inv s) {s' : State}
    (run : runSteps step events s = some s') : inv s' := by
  have each : EachStep step (fun _ _ => True) events s := EachStep.any fun _ _ => trivial
  exact runSteps_keeps (fun s e t kept _ made => keeps s e t kept made) start each run

end

end EspFirmware.Lib
