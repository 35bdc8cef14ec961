import EspFirmware.Spec.Driver

namespace EspFirmware.Driver
open Lib Spec

variable {s : PwmSettings} (convert : Nat → Nat → Nat → Nat)

theorem channels_length (i : Nat) (infos : List PwmInfo) (masks : StartMasks) :
    (s.channels convert i infos masks).2.length = infos.length := by
  induction infos generalizing i masks with
  | nil => rfl
  | cons info infos ih => simp [PwmSettings.channels, ih]

theorem insertEdge_cons (tmp param : PwmParam) (before : List PwmParam) :
    insertEdge tmp (param :: before) =
      if tmp.edg_time < param.edg_time then param :: insertEdge tmp before else tmp :: param :: before := rfl

theorem mergeEdges_cons (param : PwmParam) (rest : List PwmParam) :
    mergeEdges (param :: rest) =
      match mergeEdges rest with
      | [] => [param]
      | next :: rest =>
          if next.edg_time = param.edg_time then
            ⟨param.edg_time, param.io_set_mask ||| next.io_set_mask, param.io_clr_mask ||| next.io_clr_mask⟩ :: rest
          else param :: next :: rest := rfl

theorem insertEdge_length (tmp : PwmParam) (before : List PwmParam) :
    (insertEdge tmp before).length = before.length + 1 := by
  induction before with
  | nil => rfl
  | cons param before ih =>
      rw [insertEdge_cons]
      split
      · rw [List.length_cons, ih, List.length_cons]
      · rfl

theorem insertSort_length (param : List PwmParam) : (pwm_insert_sort param).length = param.length := by
  have inserted (before : List PwmParam) :
      (param.foldl (fun before tmp => insertEdge tmp before) before).length = before.length + param.length := by
    induction param generalizing before with
    | nil => rfl
    | cons tmp rest ih => rw [List.foldl_cons, ih, insertEdge_length, List.length_cons]; omega
  rw [pwm_insert_sort, List.length_reverse, inserted, List.length_nil, Nat.zero_add]

theorem mergeEdges_length (param : List PwmParam) : (mergeEdges param).length ≤ param.length := by
  induction param with
  | nil => exact Nat.le_refl 0
  | cons first rest ih =>
      rw [mergeEdges_cons]
      cases merged : mergeEdges rest with
      | nil => simp
      | cons next later =>
          rw [merged, List.length_cons] at ih
          simp only
          split <;> simp only [List.length_cons] <;> omega

theorem differencesFrom_length (time : Nat) (param : List PwmParam) :
    (differencesFrom time param).length = param.length := by
  induction param generalizing time with
  | nil => rfl
  | cons first rest ih => rw [differencesFrom, List.length_cons, List.length_cons, ih]

theorem differences_length (param : List PwmParam) : (differences param).length = param.length := by
  cases param with
  | nil => rfl
  | cons first rest => rw [differences, List.length_cons, List.length_cons, differencesFrom_length]

theorem withStart_length (masks : StartMasks) (param : List PwmParam) :
    (withStart masks param).length = param.length := List.length_modify ..

theorem mergeEdges_last (param : List PwmParam) (last : PwmParam) :
    ∃ front merged, mergeEdges (param ++ [last]) = front ++ [merged] ∧ merged.edg_time = last.edg_time := by
  induction param with
  | nil => exact ⟨[], last, rfl, rfl⟩
  | cons first rest ih =>
      obtain ⟨front, merged, same, time⟩ := ih
      rw [List.cons_append, mergeEdges_cons, same]
      cases front with
      | nil =>
          simp only [List.nil_append]
          split
          next equal => exact ⟨[], _, rfl, equal.symm.trans time⟩
          next => exact ⟨[first], merged, rfl, time⟩
      | cons second front =>
          simp only [List.cons_append]
          split
          · exact ⟨_ :: front, merged, rfl, time⟩
          · exact ⟨first :: second :: front, merged, rfl, time⟩

theorem table_length (left : StartMasks) :
    (s.table convert left).length ≤ 2 * s.channel_num + 1 := by
  have edges (channels : List PwmChannelParam) :
      (channels.flatMap PwmChannelParam.edges).length = 2 * channels.length := by
    induction channels with
    | nil => rfl
    | cons channel rest ih =>
        rw [List.flatMap_cons, List.length_append, ih, List.length_cons, PwmChannelParam.edges]
        simp only [List.length_cons, List.length_nil]
        omega
  have dropped (masks : StartMasks) (param : List PwmParam) : (dropFirst masks param).2.length ≤ param.length := by
    unfold dropFirst
    split
    · exact Nat.le_refl 0
    · split <;> simp
  simp only [PwmSettings.table, withStart_length]
  refine (dropped _ _).trans ?_
  rw [differences_length]
  refine (mergeEdges_length _).trans ?_
  rw [List.length_append, insertSort_length, edges, List.length_zipWith, channels_length, PwmSettings.channel_num]
  simp

theorem table_ne_nil (left : StartMasks) (period : 0 < s.depth) : s.table convert left ≠ [] := by
  intro empty
  replace empty := congrArg List.length empty
  simp only [PwmSettings.table, withStart_length, List.length_nil] at empty
  revert empty
  generalize (s.channels convert 0 s.pwm_info ⟨0, 0⟩) = first
  generalize pwm_insert_sort _ = edges
  obtain ⟨front, merged, same, time⟩ := mergeEdges_last edges ⟨s.depth, left.start_set_mask, left.start_clr_mask⟩
  rw [same]
  intro empty
  cases front with
  | nil =>
      rw [List.nil_append, differences, dropFirst, if_neg (by rw [time]; exact period.ne')] at empty
      cases empty
  | cons param front =>
      rw [List.cons_append, differences, dropFirst] at empty
      split at empty
      · rw [differencesFrom_length, List.length_append] at empty
        cases empty
      · cases empty

def Earlier (a b : PwmParam) : Prop := a.edg_time ≤ b.edg_time

theorem mem_insertEdge {tmp e : PwmParam} {before : List PwmParam} : e ∈ insertEdge tmp before ↔ e = tmp ∨ e ∈ before := by
  induction before with
  | nil => simp [insertEdge]
  | cons param before ih =>
      rw [insertEdge_cons]
      split
      · rw [List.mem_cons, ih, List.mem_cons]
        exact or_left_comm
      · rw [List.mem_cons]

theorem mem_insertSort {e : PwmParam} {param : List PwmParam} : e ∈ pwm_insert_sort param ↔ e ∈ param := by
  have inserted (before : List PwmParam) :
      e ∈ param.foldl (fun before tmp => insertEdge tmp before) before ↔ e ∈ before ∨ e ∈ param := by
    induction param generalizing before with
    | nil => simp
    | cons tmp rest ih =>
        rw [List.foldl_cons, ih, mem_insertEdge, List.mem_cons]
        exact or_assoc.trans or_left_comm
  rw [pwm_insert_sort, List.mem_reverse, inserted]
  simp

theorem insertEdge_sorted (tmp : PwmParam) {before : List PwmParam} (sorted : before.Pairwise (Function.swap Earlier)) :
    (insertEdge tmp before).Pairwise (Function.swap Earlier) := by
  induction before with
  | nil => exact List.pairwise_singleton ..
  | cons param before ih =>
      rw [List.pairwise_cons] at sorted
      rw [insertEdge_cons]
      split
      next later =>
          refine List.pairwise_cons.mpr ⟨fun e there => ?_, ih sorted.2⟩
          rcases mem_insertEdge.mp there with rfl | there
          · exact later.le
          · exact sorted.1 e there
      next notLater =>
          refine List.pairwise_cons.mpr ⟨fun e there => ?_, List.pairwise_cons.mpr sorted⟩
          have first : param.edg_time ≤ tmp.edg_time := Nat.le_of_not_lt notLater
          rcases List.mem_cons.mp there with rfl | there
          · exact first
          · exact (sorted.1 e there).trans first

theorem insertSort_sorted (param : List PwmParam) : (pwm_insert_sort param).Pairwise Earlier := by
  have inserted (before : List PwmParam) (sorted : before.Pairwise (Function.swap Earlier)) :
      (param.foldl (fun before tmp => insertEdge tmp before) before).Pairwise (Function.swap Earlier) := by
    induction param generalizing before with
    | nil => exact sorted
    | cons tmp rest ih => exact ih _ (insertEdge_sorted tmp sorted)
  exact List.pairwise_reverse.mpr (inserted [] .nil)

def HasBit (f : PwmParam → BitVec 16) (param : List PwmParam) (t b : Nat) : Prop :=
  ∃ e ∈ param, e.edg_time = t ∧ (f e).getLsbD b = true

theorem mergeEdges_times (param : List PwmParam) (t : Nat) :
    (∃ e ∈ mergeEdges param, e.edg_time = t) ↔ ∃ e ∈ param, e.edg_time = t := by
  induction param with
  | nil => rfl
  | cons first rest ih =>
      rw [mergeEdges_cons, List.exists_mem_cons_iff, ← ih]
      split
      next none_ => simp [none_]
      next next rest' some_ =>
          rw [some_]
          split
          next same => simp [same]
          next => simp

theorem mergeEdges_bit {f : PwmParam → BitVec 16}
    (ors : ∀ p q : PwmParam, f ⟨p.edg_time, p.io_set_mask ||| q.io_set_mask, p.io_clr_mask ||| q.io_clr_mask⟩ = f p ||| f q)
    (param : List PwmParam) (t b : Nat) : HasBit f (mergeEdges param) t b ↔ HasBit f param t b := by
  unfold HasBit
  induction param with
  | nil => rfl
  | cons first rest ih =>
      rw [mergeEdges_cons, List.exists_mem_cons_iff, ← ih]
      split
      next none_ => simp [none_]
      next next rest' some_ =>
          rw [some_]
          split
          next same =>
              simp only [List.exists_mem_cons_iff, ors, BitVec.getLsbD_or, Bool.or_eq_true, same]
              tauto
          next => simp

theorem mergeEdges_sorted {param : List PwmParam} (sorted : param.Pairwise Earlier) :
    (mergeEdges param).Pairwise fun a b => a.edg_time < b.edg_time := by
  induction param with
  | nil => exact .nil
  | cons first rest ih =>
      rw [List.pairwise_cons] at sorted
      have ordered := ih sorted.2
      have later : ∀ e ∈ mergeEdges rest, first.edg_time ≤ e.edg_time := fun e there => by
        obtain ⟨e', there', same⟩ := (mergeEdges_times rest e.edg_time).mp ⟨e, there, rfl⟩
        exact same ▸ sorted.1 e' there'
      rw [mergeEdges_cons]
      split
      next => exact List.pairwise_singleton ..
      next next rest' some_ =>
          rw [some_] at ordered later
          have after := List.pairwise_cons.mp ordered
          split
          next same => exact List.pairwise_cons.mpr ⟨fun e there => same ▸ after.1 e there, after.2⟩
          next other =>
              have less : first.edg_time < next.edg_time :=
                lt_of_le_of_ne (later next List.mem_cons_self) (Ne.symm other)
              refine List.pairwise_cons.mpr ⟨fun e there => ?_, ordered⟩
              rcases List.mem_cons.mp there with rfl | there
              · exact less
              · exact less.trans (after.1 e there)

end EspFirmware.Driver
