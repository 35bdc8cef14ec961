import EspFirmware.Spec.Pthread

namespace EspFirmware.Pthread
open Lib Spec

variable {n : Nat} {s : CondTasks n}

section
variable (s) (i j : Fin n) (pc : CondPc) (sem : Option Bool)

@[grind =] theorem condGoto_pc : (s.goto i pc).pc j = if j = i then pc else s.pc j := rfl
@[grind =] theorem condGoto_list : (s.goto i pc).waiter_list = s.waiter_list := rfl
@[grind =] theorem condGoto_sem : (s.goto i pc).wait_sem j = s.wait_sem j := rfl
@[grind =] theorem setSem_sem : (s.setSem i sem).wait_sem j = if j = i then sem else s.wait_sem j := rfl
@[grind =] theorem setSem_list : (s.setSem i sem).waiter_list = s.waiter_list := rfl
@[grind =] theorem setSem_pc : (s.setSem i sem).pc j = s.pc j := rfl

end

def CondTasks.gives (s : CondTasks n) (l : List (Fin n)) : CondTasks n :=
  { s with wait_sem := fun j => if l.contains j then some true else s.wait_sem j }

theorem gives_given {l : List (Fin n)} {j : Fin n} (given : j ∈ l) : (s.gives l).wait_sem j = some true :=
  if_pos (List.contains_iff_mem.mpr given)

theorem gives_other {l : List (Fin n)} {j : Fin n} (other : j ∉ l) : (s.gives l).wait_sem j = s.wait_sem j :=
  if_neg fun given => other (List.contains_iff_mem.mp given)

theorem give_eq {i : Fin n} (there : s.wait_sem i ≠ none) : s.xSemaphoreGive i = s.gives [i] := by
  unfold CondTasks.xSemaphoreGive
  cases sem : s.wait_sem i with
  | none => exact absurd sem there
  | some _ => simp [CondTasks.setSem, CondTasks.gives]

theorem gives_gives (l l' : List (Fin n)) : (s.gives l).gives l' = s.gives (l ++ l') := by
  unfold CondTasks.gives
  congr 1
  funext j
  grind

theorem foldl_give {l : List (Fin n)} (there : ∀ i ∈ l, s.wait_sem i ≠ none) :
    l.foldl CondTasks.xSemaphoreGive s = s.gives l := by
  induction l generalizing s with
  | nil => simp [CondTasks.gives]
  | cons i l ih =>
      rw [List.foldl_cons, give_eq (there i (by simp)), ih, gives_gives, List.singleton_append]
      intro j listed
      have := there j (by simp [listed])
      unfold CondTasks.gives
      grind

def CondPc.enqueued : CondPc → Bool
  | .unlock _ | .take _ | .dequeue _ => true
  | _ => false

structure CondSound (r : CondRun n) : Prop where
  noFault : r.s.fault = false
  listed : ∀ i, i ∈ r.s.waiter_list ↔ (r.s.pc i).enqueued = true
  sems : ∀ i ∈ r.s.waiter_list, r.s.wait_sem i ≠ none
  ordered : r.s.waiter_list.Pairwise fun i j => r.number i < r.number j
  numbered : ∀ i ∈ r.s.waiter_list, r.number i < r.waits
  fresh : ∀ i, r.s.Eligible i → r.released (r.number i) = false ∧ r.timedOut (r.number i) = false
  unused : ∀ k, r.waits ≤ k → r.released k = false ∧ r.timedOut k = false

variable {portTICK_PERIOD_MS : Nat} {r r' : CondRun n}

theorem unique_number {l : List (Fin n)} {number : Fin n → Nat} (ordered : l.Pairwise fun i j => number i < number j)
    {i j : Fin n} (listedI : i ∈ l) (listedJ : j ∈ l) (same : number i = number j) : i = j := by
  induction l with
  | nil => cases listedI
  | cons k l ih =>
      rw [List.pairwise_cons] at ordered
      rcases List.mem_cons.mp listedI with here | thereI <;> rcases List.mem_cons.mp listedJ with here' | thereJ
      · rw [here, here']
      · have := ordered.1 j thereJ
        rw [← here] at this
        omega
      · have := ordered.1 i thereI
        rw [← here'] at this
        omega
      · exact ih ordered.2 thereI thereJ

inductive CondStep (s s' : CondTasks n) : CondEvent n → Prop
  | gives (e : CondEvent n) (l : List (Fin n)) (listed : ∀ i ∈ l, i ∈ s.waiter_list) (result : s' = s.gives l)
      (signals : ∀ i, e = .signal i → l = s.waiter_list.head?.toList)
      (broadcasts : ∀ i, e = .broadcast i → l = s.waiter_list) (notStep : ∀ i, e ≠ .step i ∧ e ≠ .timeout i) :
      CondStep s s' e
  | timeout (i : Fin n) (t : Timeout) (takes : s.pc i = .take t) (notGiven : s.wait_sem i ≠ some true)
      (result : s' = s.goto i (.dequeue .ETIMEDOUT)) : CondStep s s' (.timeout i)
  | enqueue (i : Fin n) (t : Timeout) (comes : s.pc i = .enqueue t)
      (result : s' = { s.setSem i (some false) with waiter_list := s.waiter_list ++ [i] }.goto i (.unlock t)) :
      CondStep s s' (.step i)
  | takes (i : Fin n) (t : Timeout) (takes : s.pc i = .take t) (given : s.wait_sem i = some true)
      (result : s' = (s.setSem i (some false)).goto i (.dequeue .ok)) : CondStep s s' (.step i)
  | dequeue (i : Fin n) (ret : CondRet) (leaves : s.pc i = .dequeue ret)
      (result : s' = { s.setSem i none with waiter_list := s.waiter_list.erase i }.goto i (.relock ret)) :
      CondStep s s' (.step i)
  | quiet (e : CondEvent n) (list : s'.waiter_list = s.waiter_list) (sems : s'.wait_sem = s.wait_sem)
      (noFault : s'.fault = s.fault)
      (pcs : ∀ j, (s'.pc j).enqueued = (s.pc j).enqueued ∧ (s'.pc j).waits = (s.pc j).waits)
      (kind : (∀ i, e ≠ .signal i ∧ e ≠ .broadcast i ∧ e ≠ .timeout i) ∧
        ∀ i, e = .step i → ∀ t, s.pc i ≠ .enqueue t) : CondStep s s' e

theorem mutexUnlock_same (i : Fin n) : (s.mutexUnlock i).waiter_list = s.waiter_list ∧
    (s.mutexUnlock i).wait_sem = s.wait_sem ∧ (s.mutexUnlock i).fault = s.fault ∧ (s.mutexUnlock i).pc = s.pc := by
  unfold CondTasks.mutexUnlock
  split <;> exact ⟨rfl, rfl, rfl, rfl⟩

theorem goto_kept {i : Fin n} (pc : CondPc) (enqueued : pc.enqueued = (s.pc i).enqueued)
    (waits : pc.waits = (s.pc i).waits) (j : Fin n) :
    ((s.goto i pc).pc j).enqueued = (s.pc j).enqueued ∧ ((s.goto i pc).pc j).waits = (s.pc j).waits := by
  by_cases here : j = i
  · subst here
    simp [CondTasks.goto, enqueued, waits]
  · simp [CondTasks.goto, here]

theorem condStep {e : CondEvent n} {s' : CondTasks n} (there : ∀ i ∈ s.waiter_list, s.wait_sem i ≠ none)
    (made : e.run portTICK_PERIOD_MS s = some s') : CondStep s s' e := by
  cases e with
  | timedwait i deadline cur_time =>
      obtain ⟨idle, made⟩ := Option.ite_none_right_eq_some.mp made
      cases wait : timeoutTicks portTICK_PERIOD_MS deadline cur_time with
      | none =>
          rw [wait] at made
          cases made
          exact .quiet _ rfl rfl rfl (fun _ => ⟨rfl, rfl⟩) (by simp)
      | some t =>
          rw [wait] at made
          cases made
          exact .quiet _ rfl rfl rfl (goto_kept _ (by rw [idle]; rfl) (by rw [idle]; rfl)) (by simp)
  | lock i =>
      obtain ⟨-, ⟨⟩⟩ := Option.ite_none_right_eq_some.mp made
      exact .quiet _ rfl rfl rfl (fun _ => ⟨rfl, rfl⟩) (by simp)
  | unlock i =>
      obtain ⟨-, ⟨⟩⟩ := Option.ite_none_right_eq_some.mp made
      obtain ⟨list, sems, noFault, pcs⟩ := mutexUnlock_same (s := s) i
      exact .quiet _ list sems noFault (fun j => by rw [pcs]; exact ⟨rfl, rfl⟩) (by simp)
  | signal i =>
      obtain ⟨-, ⟨⟩⟩ := Option.ite_none_right_eq_some.mp made
      refine .gives _ s.waiter_list.head?.toList ?_ ?_ (fun _ _ => rfl) (by simp) (by simp)
      · intro j listed
        rw [Option.mem_toList] at listed
        exact List.mem_of_mem_head? listed
      · unfold CondTasks.pthread_cond_signal
        cases waiters : s.waiter_list with
        | nil => simp [CondTasks.gives]
        | cons entry rest => exact give_eq (there entry (by simp [waiters]))
  | broadcast i =>
      obtain ⟨-, ⟨⟩⟩ := Option.ite_none_right_eq_some.mp made
      exact .gives _ s.waiter_list (fun _ => id) (foldl_give there) (by simp) (fun _ _ => rfl) (by simp)
  | timeout i =>
      rw [CondEvent.run] at made
      cases at_ : s.pc i with
      | take t =>
          rw [at_] at made
          cases t with
          | portMAX_DELAY => cases made
          | ticks t =>
              obtain ⟨notGiven, ⟨⟩⟩ := Option.ite_none_left_eq_some.mp made
              exact .timeout i _ at_ notGiven rfl
      | _ =>
          rw [at_] at made
          cases made
  | step i =>
      rw [CondEvent.run, CondTasks.next] at made
      cases at_ : s.pc i with
      | idle =>
          rw [at_] at made
          cases made
      | enqueue t =>
          rw [at_] at made
          cases made
          exact .enqueue i t at_ rfl
      | unlock t =>
          rw [at_] at made
          cases made
          obtain ⟨list, sems, noFault, pcs⟩ := mutexUnlock_same (s := s) i
          have kept := goto_kept (s := s.mutexUnlock i) (i := i) (.take t) (by rw [pcs, at_]; rfl)
            (by rw [pcs, at_]; rfl)
          exact .quiet _ list sems noFault (fun j => by rw [← pcs]; exact kept j) (by simp_all)
      | take t =>
          rw [at_] at made
          obtain ⟨given, ⟨⟩⟩ := Option.ite_none_right_eq_some.mp made
          exact .takes i t at_ given rfl
      | dequeue ret =>
          rw [at_] at made
          cases made
          exact .dequeue i ret at_ rfl
      | relock ret =>
          rw [at_] at made
          obtain ⟨-, ⟨⟩⟩ := Option.ite_none_right_eq_some.mp made
          have kept := goto_kept (s := { s with mutex := some i }) (i := i) .idle (by rw [at_]; rfl) (by rw [at_]; rfl)
          exact .quiet _ rfl rfl rfl kept (by simp_all)

structure Moved (r : CondRun n) (s' : CondTasks n) (e : CondEvent n) (number : Fin n → Nat) (waits : Nat) : Prop where
  stays : ∀ i, r.s.Eligible i → s'.wait_sem i = some true ∨ e = .timeout i ∨ s'.Eligible i ∧ number i = r.number i
  came : ∀ i, s'.Eligible i → r.s.Eligible i ∧ number i = r.number i ∧ e ≠ .timeout i ∨
    number i = r.waits ∧ waits = r.waits + 1
  waits : r.waits ≤ waits

theorem numbers_step {i : Fin n} (other : ∀ t, r.s.pc i ≠ .enqueue t) : r.numbers (.step i) = (r.number, r.waits) := by
  rw [CondRun.numbers]
  split
  next t comes => exact absurd comes (other t)
  next => rfl

theorem numbers_quiet {e : CondEvent n} (kind : ∀ i, e = .step i → ∀ t, r.s.pc i ≠ .enqueue t) :
    r.numbers e = (r.number, r.waits) := by
  cases e with
  | step i => exact numbers_step (kind i rfl)
  | _ => rfl

theorem CondStep.moved {s' : CondTasks n} {e : CondEvent n} (step : CondStep r.s s' e) :
    Moved r s' e (r.numbers e).1 (r.numbers e).2 := by
  cases step with
  | gives _ l listed result signals broadcasts notStep =>
      subst result
      have same : r.numbers e = (r.number, r.waits) := numbers_quiet fun i here => absurd here (notStep i).1
      refine ⟨fun i eligible => ?_, fun i eligible => ?_, by rw [same]⟩
      · by_cases here : i ∈ l
        · exact .inl (gives_given here)
        · exact .inr (.inr ⟨⟨eligible.1, eligible.2.1, (gives_other here).trans eligible.2.2⟩, by rw [same]⟩)
      · have notGiven : i ∉ l := fun here => by
          have sem := eligible.2.2
          rw [gives_given here] at sem
          cases sem
        exact .inl ⟨⟨eligible.1, eligible.2.1, (gives_other notGiven).symm.trans eligible.2.2⟩, by rw [same], (notStep i).2⟩
  | timeout i t takes notGiven result =>
      subst result
      refine ⟨fun j eligible => ?_, fun j eligible => ?_, le_rfl⟩
      · by_cases here : j = i
        · exact .inr (.inl (by rw [here]))
        · exact .inr (.inr ⟨⟨eligible.1, by grind [CondTasks.Eligible], eligible.2.2⟩, rfl⟩)
      · have other : j ≠ i := by grind [CondTasks.Eligible, CondPc.waits]
        exact .inl ⟨⟨eligible.1, by grind [CondTasks.Eligible], eligible.2.2⟩, rfl, by grind⟩
  | enqueue i t comes result =>
      subst result
      have new : r.numbers (.step i) = (fun j => if j = i then r.waits else r.number j, r.waits + 1) := by
        rw [CondRun.numbers, comes]
      rw [new]
      refine ⟨fun j eligible => ?_, fun j eligible => ?_, Nat.le_succ _⟩
      · have other : j ≠ i := by grind [CondTasks.Eligible, CondPc.waits]
        exact .inr (.inr ⟨⟨List.mem_append_left _ eligible.1, by grind [CondTasks.Eligible],
          by grind [CondTasks.Eligible]⟩, if_neg other⟩)
      · by_cases here : j = i
        · exact .inr ⟨if_pos here, rfl⟩
        · refine .inl ⟨⟨?_, by grind [CondTasks.Eligible], by grind [CondTasks.Eligible]⟩, if_neg here, by simp⟩
          exact (List.mem_append.mp eligible.1).resolve_right (by simpa using here)
  | takes i t takes given result =>
      subst result
      rw [numbers_step (by simp [takes])]
      refine ⟨fun j eligible => ?_, fun j eligible => ?_, le_rfl⟩
      · have other : j ≠ i := by grind [CondTasks.Eligible]
        exact .inr (.inr ⟨⟨eligible.1, by grind [CondTasks.Eligible], by grind [CondTasks.Eligible]⟩, rfl⟩)
      · have other : j ≠ i := by grind [CondTasks.Eligible, CondPc.waits]
        exact .inl ⟨⟨eligible.1, by grind [CondTasks.Eligible], by grind [CondTasks.Eligible]⟩, rfl, by simp⟩
  | dequeue i ret leaves result =>
      subst result
      rw [numbers_step (by simp [leaves])]
      refine ⟨fun j eligible => ?_, fun j eligible => ?_, le_rfl⟩
      · have other : j ≠ i := by grind [CondTasks.Eligible, CondPc.waits]
        exact .inr (.inr ⟨⟨(List.mem_erase_of_ne other).mpr eligible.1, by grind [CondTasks.Eligible],
          by grind [CondTasks.Eligible]⟩, rfl⟩)
      · have other : j ≠ i := by grind [CondTasks.Eligible, CondPc.waits]
        exact .inl ⟨⟨List.mem_of_mem_erase eligible.1, by grind [CondTasks.Eligible], by grind [CondTasks.Eligible]⟩,
          rfl, by simp⟩
  | quiet _ list sems noFault pcs kind =>
      have same : r.numbers e = (r.number, r.waits) := numbers_quiet kind.2
      have eligible : ∀ i, s'.Eligible i ↔ r.s.Eligible i := fun i => by
        unfold CondTasks.Eligible
        rw [list, sems, (pcs i).2]
      exact ⟨fun i before => .inr (.inr ⟨(eligible i).mpr before, by rw [same]⟩),
        fun i after => .inl ⟨(eligible i).mp after, by rw [same], (kind.1 i).2.2⟩, by rw [same]⟩

theorem CondStep.list {s' : CondTasks n} {e : CondEvent n} (step : CondStep r.s s' e) :
    s'.waiter_list.Sublist r.s.waiter_list ∧ r.numbers e = (r.number, r.waits) ∨
      ∃ i t, r.s.pc i = .enqueue t ∧ s'.waiter_list = r.s.waiter_list ++ [i] ∧
        r.numbers e = (fun j => if j = i then r.waits else r.number j, r.waits + 1) := by
  cases step with
  | gives _ l listed result signals broadcasts notStep =>
      subst result
      exact .inl ⟨List.Sublist.refl _, numbers_quiet fun i here => absurd here (notStep i).1⟩
  | timeout i t takes notGiven result => exact .inl ⟨result ▸ List.Sublist.refl _, rfl⟩
  | enqueue i t comes result =>
      subst result
      refine .inr ⟨i, t, comes, rfl, ?_⟩
      rw [CondRun.numbers, comes]
  | takes i t takes given result =>
      subst result
      exact .inl ⟨List.Sublist.refl _, numbers_step (by simp [takes])⟩
  | dequeue i ret leaves result =>
      subst result
      exact .inl ⟨List.erase_sublist, numbers_step (by simp [leaves])⟩
  | quiet _ list sems noFault pcs kind => exact .inl ⟨list ▸ List.Sublist.refl _, numbers_quiet kind.2⟩

theorem CondSound.step {e : CondEvent n} (sound : CondSound r) (made : r.step portTICK_PERIOD_MS e = some r') :
    CondSound r' ∧ CondStep r.s r'.s e ∧ Moved r r'.s e r'.number r'.waits := by
  obtain ⟨s', ran, rfl⟩ := Option.map_eq_some_iff.mp made
  have step := condStep sound.sems ran
  have moved := step.moved
  have unique := fun i j => unique_number (i := i) (j := j) sound.ordered
  have timedOut : ∀ i, e = .timeout i → i ∈ r.s.waiter_list := by
    rintro i rfl
    cases step with
    | gives _ _ _ _ _ _ notStep => exact absurd rfl (notStep i).2
    | timeout _ t takes => exact (sound.listed i).mpr (by rw [takes]; rfl)
    | quiet _ _ _ _ _ kind => exact absurd rfl (kind.1 i).2.2
  have distinct : r.s.waiter_list.Nodup := sound.ordered.imp fun {a b} less same => by
    rw [same] at less
    exact absurd less (lt_irrefl _)
  have absent : ∀ i t, r.s.pc i = .enqueue t → i ∉ r.s.waiter_list := fun i t comes there => by
    have enqueued := (sound.listed i).mp there
    rw [comes] at enqueued
    cases enqueued
  refine ⟨⟨?_, ?_, ?_, ?_, ?_, ?_, ?_⟩, step, moved⟩
  · cases step with
    | gives _ l listed result => exact result ▸ sound.noFault
    | timeout i t takes notGiven result => exact result ▸ sound.noFault
    | enqueue i t comes result => exact result ▸ sound.noFault
    | takes i t takes given result => exact result ▸ sound.noFault
    | dequeue i ret leaves result => exact result ▸ sound.noFault
    | quiet _ list sems noFault => exact noFault.trans sound.noFault
  · cases step with
    | gives _ l listed result => exact result ▸ sound.listed
    | timeout i t takes notGiven result =>
        subst result
        intro j
        have := sound.listed j
        grind [CondPc.enqueued]
    | enqueue i t comes result =>
        subst result
        intro j
        have := sound.listed j
        grind [CondPc.enqueued]
    | takes i t takes given result =>
        subst result
        intro j
        have := sound.listed j
        grind [CondPc.enqueued]
    | dequeue i ret leaves result =>
        subst result
        intro j
        have := sound.listed j
        have erased := distinct.mem_erase_iff (a := j) (b := i)
        grind [CondPc.enqueued]
    | quiet _ list sems noFault pcs =>
        intro i
        rw [list, (pcs i).1]
        exact sound.listed i
  · cases step with
    | gives _ l listed result =>
        subst result
        intro j there
        have := sound.sems j there
        simp only [CondTasks.gives]
        grind
    | timeout i t takes notGiven result => exact result ▸ sound.sems
    | enqueue i t comes result =>
        subst result
        intro j there
        have := sound.sems j
        grind
    | takes i t takes given result =>
        subst result
        intro j there
        have := sound.sems j there
        grind
    | dequeue i ret leaves result =>
        subst result
        intro j there
        have := sound.sems j
        have erased := distinct.mem_erase_iff (a := j) (b := i)
        grind
    | quiet _ list sems noFault pcs =>
        rw [list, sems]
        exact sound.sems
  · rcases step.list with ⟨sublist, same⟩ | ⟨i, t, comes, list, new⟩
    · rw [same]
      exact sound.ordered.sublist sublist
    · rw [new, list, List.pairwise_append]
      refine ⟨sound.ordered.imp_of_mem fun {a b} thereA thereB less => ?_, List.pairwise_singleton _ _, ?_⟩
      · have := absent i t comes
        grind
      · intro a thereA b thereB
        have := absent i t comes
        have := sound.numbered a thereA
        grind
  · rcases step.list with ⟨sublist, same⟩ | ⟨i, t, comes, list, new⟩
    · rw [same]
      exact fun i there => sound.numbered i (sublist.subset there)
    · rw [new, list]
      intro j there
      have := sound.numbered j
      grind
  · intro i eligible
    rcases moved.came i eligible with ⟨before, same, notTimeout⟩ | ⟨new, waits⟩
    · have fresh := sound.fresh i before
      simp only [same, fresh, Bool.false_or, decide_eq_false_iff_not]
      refine ⟨?_, ?_⟩
      · rintro ⟨j, sameNumber, eligibleJ, given⟩
        have := unique j i eligibleJ.1 before.1 sameNumber
        grind [CondTasks.Eligible]
      · rintro ⟨j, isTimeout, sameNumber⟩
        have := unique j i (timedOut j isTimeout) before.1 sameNumber
        grind
    · have unused := sound.unused r.waits le_rfl
      simp only [new, unused, Bool.false_or, decide_eq_false_iff_not]
      refine ⟨?_, ?_⟩
      · rintro ⟨j, sameNumber, eligibleJ, -⟩
        have := sound.numbered j eligibleJ.1
        omega
      · rintro ⟨j, isTimeout, sameNumber⟩
        have := sound.numbered j (timedOut j isTimeout)
        omega
  · intro k least
    have before : r.waits ≤ k := moved.waits.trans least
    have unused := sound.unused k before
    simp only [unused, Bool.false_or, decide_eq_false_iff_not]
    refine ⟨?_, ?_⟩
    · rintro ⟨j, sameNumber, eligibleJ, -⟩
      have := sound.numbered j eligibleJ.1
      omega
    · rintro ⟨j, isTimeout, sameNumber⟩
      have := sound.numbered j (timedOut j isTimeout)
      omega

section
variable {e : CondEvent n} (made : r.step portTICK_PERIOD_MS e = some r')
include made

theorem released_iff (k : Nat) : r'.released k = true ↔
    r.released k = true ∨ ∃ j, r.number j = k ∧ r.s.Eligible j ∧ r'.s.wait_sem j = some true := by
  obtain ⟨s', ran, rfl⟩ := Option.map_eq_some_iff.mp made
  simp only [Bool.or_eq_true, decide_eq_true_eq]

theorem timedOut_iff (k : Nat) : r'.timedOut k = true ↔
    r.timedOut k = true ∨ ∃ j, e = .timeout j ∧ r.number j = k := by
  obtain ⟨s', ran, rfl⟩ := Option.map_eq_some_iff.mp made
  simp only [Bool.or_eq_true, decide_eq_true_eq]

end

structure Tracked (first r : CondRun n) : Prop where
  kept : ∀ i, first.s.Eligible i → r.released (first.number i) = true ∨ r.timedOut (first.number i) = true ∨
    r.s.Eligible i ∧ r.number i = first.number i
  older : ∀ i, r.s.Eligible i → r.number i < first.waits → first.s.Eligible i ∧ first.number i = r.number i
  waits : first.waits ≤ r.waits

variable {first : CondRun n}

theorem Tracked.step {e : CondEvent n} (tracked : Tracked first r) (moved : Moved r r'.s e r'.number r'.waits)
    (made : r.step portTICK_PERIOD_MS e = some r') : Tracked first r' := by
  refine ⟨fun i eligible => ?_, fun i eligible old => ?_, tracked.waits.trans moved.waits⟩
  · rcases tracked.kept i eligible with released | timedOut | ⟨still, same⟩
    · exact .inl ((released_iff made _).mpr (.inl released))
    · exact .inr (.inl ((timedOut_iff made _).mpr (.inl timedOut)))
    · rcases moved.stays i still with given | isTimeout | ⟨after, number⟩
      · exact .inl ((released_iff made _).mpr (.inr ⟨i, same, still, given⟩))
      · exact .inr (.inl ((timedOut_iff made _).mpr (.inr ⟨i, isTimeout, same⟩)))
      · exact .inr (.inr ⟨after, number.trans same⟩)
  · rcases moved.came i eligible with ⟨before, same, -⟩ | ⟨new, -⟩
    · rw [same] at old ⊢
      exact tracked.older i before old
    · have := tracked.waits
      omega

def Counted (first r : CondRun n) (k : Nat) : Prop :=
  k ≤ (first.freed r).card ∨
    ∀ i, first.s.Eligible i → r.released (first.number i) = true ∨ r.timedOut (first.number i) = true

theorem freed_grows {e : CondEvent n} (made : r.step portTICK_PERIOD_MS e = some r') :
    first.freed r ⊆ first.freed r' := by
  intro i
  rw [CondRun.freed, CondRun.freed, Finset.mem_filter_univ, Finset.mem_filter_univ]
  exact fun there => ⟨there.1, (released_iff made _).mpr (.inl there.2)⟩

theorem Counted.step {e : CondEvent n} {k : Nat} (counted : Counted first r k)
    (made : r.step portTICK_PERIOD_MS e = some r') : Counted first r' k := by
  refine counted.imp (fun enough => enough.trans (Finset.card_le_card (freed_grows made))) fun all i eligible => ?_
  exact (all i eligible).imp (fun released => (released_iff made _).mpr (.inl released)) fun timedOut =>
    (timedOut_iff made _).mpr (.inl timedOut)

theorem Counted.signal {i : Fin n} {k : Nat} (counted : Counted first r k) (soundFirst : CondSound first)
    (sound : CondSound r) (tracked : Tracked first r) (firstWaits : (CondEvent.signal i).FirstWaits r.s)
    (step : CondStep r.s r'.s (.signal i)) (made : r.step portTICK_PERIOD_MS (.signal i) = some r') :
    Counted first r' (k + 1) := by
  by_cases none : ∀ i, first.s.Eligible i → r.released (first.number i) = true ∨ r.timedOut (first.number i) = true
  · exact .inr fun i eligible => (none i eligible).imp (fun released => (released_iff made _).mpr (.inl released))
      fun timedOut => (timedOut_iff made _).mpr (.inl timedOut)
  · have enough := counted.resolve_right none
    obtain ⟨j, notAll⟩ := not_forall.mp none
    obtain ⟨eligible, neither⟩ := Classical.not_imp.mp notAll
    obtain ⟨notReleased, notTimedOut⟩ := not_or.mp neither
    obtain ⟨still, same⟩ := ((tracked.kept j eligible).resolve_left notReleased).resolve_left notTimedOut
    obtain ⟨h, head, ready⟩ := firstWaits ⟨j, still⟩
    have early : r.number h ≤ r.number j := by
      cases list : r.s.waiter_list with
      | nil => simp [list] at head
      | cons entry rest =>
          have ordered := sound.ordered
          rw [list, List.pairwise_cons] at ordered
          have isHead : entry = h := by simpa [list] using head
          have there := still.1
          rw [list] at there
          rcases List.mem_cons.mp there with here | later
          · rw [here, isHead]
          · exact isHead ▸ (ordered.1 j later).le
    have old := soundFirst.numbered j eligible.1
    obtain ⟨eligibleH, sameH⟩ := tracked.older h ready (by omega)
    have given : r'.s.wait_sem h = some true := by
      cases step with
      | gives _ l listed result signals =>
          rw [result, signals i rfl, head]
          exact if_pos (by simp)
      | quiet _ _ _ _ _ kind => exact absurd rfl (kind.1 i).1
    have new : h ∉ first.freed r := by
      rw [CondRun.freed, Finset.mem_filter_univ, sameH, (sound.fresh h ready).1]
      simp
    have there : h ∈ first.freed r' := by
      rw [CondRun.freed, Finset.mem_filter_univ]
      exact ⟨eligibleH, (released_iff made _).mpr (.inr ⟨h, sameH.symm, ready, given⟩)⟩
    refine .inl ?_
    have grows := Finset.ssubset_iff_of_subset (freed_grows made) |>.mpr ⟨h, there, new⟩
    exact enough.trans_lt (Finset.card_lt_card grows)

theorem CondSound.start : CondSound (CondRun.start n) where
  noFault := rfl
  listed := fun i => by simp [CondRun.start, CondTasks.start, CondPc.enqueued]
  sems := fun i there => by cases there
  ordered := List.Pairwise.nil
  numbered := fun i there => by cases there
  fresh := fun i _ => ⟨rfl, rfl⟩
  unused := fun k _ => ⟨rfl, rfl⟩

theorem Tracked.start : Tracked first first where
  kept := fun _ eligible => .inr (.inr ⟨eligible, rfl⟩)
  older := fun _ eligible _ => ⟨eligible, rfl⟩
  waits := le_rfl

theorem counted_run {events : List (CondEvent n)} {k : Nat} (soundFirst : CondSound first) (sound : CondSound r)
    (tracked : Tracked first r) (counted : Counted first r k)
    (firstWaits : EachStep (CondRun.step portTICK_PERIOD_MS) (fun r e => e.FirstWaits r.s) events r)
    (run : runCond portTICK_PERIOD_MS events r = some r') :
    CondSound r' ∧ Counted first r' (k + signals events) := by
  induction events generalizing r k with
  | nil =>
      cases run
      exact ⟨sound, counted⟩
  | cons e rest ih =>
      rw [runCond, runSteps_cons] at run
      obtain ⟨middle, made, later⟩ := Option.bind_eq_some_iff.mp run
      obtain ⟨soundMiddle, step, moved⟩ := sound.step made
      have next : Counted first middle (k + signals [e]) := by
        cases e with
        | signal i => exact counted.signal soundFirst sound tracked firstWaits.1 step made
        | _ => exact counted.step made
      have all := ih soundMiddle (tracked.step moved made) next (firstWaits.2 middle made) later
      rw [Nat.add_assoc, signals, signals, ← List.countP_append] at all
      exact all

theorem CondSound.run {events : List (CondEvent n)} (sound : CondSound r)
    (firstWaits : EachStep (CondRun.step portTICK_PERIOD_MS) (fun r e => e.FirstWaits r.s) events r)
    (run : runCond portTICK_PERIOD_MS events r = some r') : CondSound r' :=
  runSteps_keeps (fun _ _ _ sound _ made => (sound.step made).1) sound firstWaits run

/-- In a run whose signals find the first waiter eligible, signals are not lost. -/
theorem signals_kept (portTICK_PERIOD_MS : Nat) (before events : List (CondEvent n)) (first later : CondRun n)
    (firstWaits : EachStep (CondRun.step portTICK_PERIOD_MS) (fun r e => e.FirstWaits r.s) (before ++ events)
      (CondRun.start n))
    (runBefore : runCond portTICK_PERIOD_MS before (CondRun.start n) = some first)
    (run : runCond portTICK_PERIOD_MS events first = some later) :
    SignalsKept portTICK_PERIOD_MS first events later := by
  have soundFirst : CondSound first := CondSound.start.run firstWaits.front runBefore
  obtain ⟨sound, counted⟩ := counted_run soundFirst soundFirst .start (k := 0) (.inl (Nat.zero_le _))
    (firstWaits.back runBefore) run
  refine ⟨fun enough => ?_, fun i r' made j eligible => ?_, sound.noFault, fun e r' made j notGiven given => ?_⟩
  · rw [Nat.zero_add] at counted
    rcases counted with counted | all
    · exact counted
    · refine enough.trans (Finset.card_le_card fun i => ?_)
      rw [CondRun.remaining, CondRun.freed, Finset.mem_filter_univ, Finset.mem_filter_univ]
      exact fun there => ⟨there.1, (all i there.1).resolve_right (by simp [there.2])⟩
  · refine (released_iff made _).mpr (.inr ⟨j, rfl, eligible, ?_⟩)
    cases (sound.step made).2.1 with
    | gives _ l listed result _ broadcasts =>
        rw [result, broadcasts i rfl]
        exact gives_given eligible.1
    | quiet _ _ _ _ _ kind => exact absurd rfl (kind.1 i).2.1
  · cases (sound.step made).2.1 with
    | gives _ l listed result =>
        by_contra notListed
        rw [result] at given
        exact notGiven ((gives_other fun there => notListed (listed j there)).symm.trans given)
    | timeout i t takes _ result => grind
    | enqueue i t comes result => grind
    | takes i t takes _ result => grind
    | dequeue i ret leaves result => grind
    | quiet _ list sems => exact absurd (sems ▸ given) notGiven

def twoWaiters : List (CondEvent 3) :=
  [.timedwait 0 none ⟨0, 0⟩, .step 0, .step 0, .timedwait 1 none ⟨0, 0⟩, .step 1, .step 1]

/-- Each signal comes when the waiter before has gone. -/
theorem signals_kept_apart :
    ∃ first, runCond 10 twoWaiters (CondRun.start 3) = some first ∧
      ∃ later, runCond 10 [.signal 2, .step 0, .step 0, .signal 2] first = some later ∧
        SignalsKept 10 first [.signal 2, .step 0, .step 0, .signal 2] later :=
  ⟨_, rfl, _, rfl, signals_kept 10 twoWaiters _ _ _ (by decide) rfl rfl⟩

/-- Two signals in a row wake one of two waiters. -/
theorem second_signal_lost :
    ∃ first, runCond 10 twoWaiters (CondRun.start 3) = some first ∧
      ∃ later, runCond 10 [.signal 2, .signal 2] first = some later ∧
        ¬ SignalsKept 10 first [.signal 2, .signal 2] later :=
  ⟨_, rfl, _, rfl, fun kept => absurd (kept.signalled (by decide)) (by decide)⟩

end EspFirmware.Pthread
