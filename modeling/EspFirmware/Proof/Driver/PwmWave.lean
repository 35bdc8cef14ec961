import EspFirmware.Proof.Driver.PwmTable
import Mathlib.Data.List.Nodup

namespace EspFirmware.Driver
open Lib Spec

def play (time : Nat) (level : BitVec 32) : List PwmParam → List (BitVec 32 × Nat)
  | [] => []
  | param :: rest => (level, param.edg_time - time) :: play param.edg_time (param.levels level) rest

def playEdges (before : PwmParam) (mask : BitVec 32) : List PwmParam → List (BitVec 32 × Nat)
  | [] => []
  | param :: rest => (before.levels mask, param.edg_time) :: playEdges param (before.levels mask) rest

theorem edgesFrom_eq {table after : List PwmParam} (before : List PwmParam) (mask : BitVec 32) {last : PwmParam}
    (parts : table = before ++ after)
    (previous : table.getD (if before.length = 0 then table.length - 1 else before.length - 1) default = last) :
    edgesFrom ⟨table.length, table⟩ after.length before.length mask = playEdges last mask after := by
  induction after generalizing before mask last with
  | nil => rfl
  | cons param after ih =>
      have here : table.getD before.length default = param := by
        rw [parts, List.getD_eq_getElem?_getD, List.getElem?_append_right (Nat.le_refl _), Nat.sub_self]
        rfl
      simp only [List.length_cons, edgesFrom, RunPwmSingle.edge, RunPwmSingle.next, previous, here, playEdges]
      refine congrArg _ ?_
      cases after with
      | nil => rfl
      | cons second after =>
          have going : ¬ table.length ≤ before.length + 1 := by
            rw [parts]
            simp only [List.length_append, List.length_cons]
            omega
          rw [if_neg going]
          have parts' : table = (before ++ [param]) ++ second :: after := by rw [parts, List.append_assoc]; rfl
          have previous' : table.getD (if (before ++ [param]).length = 0 then table.length - 1
              else (before ++ [param]).length - 1) default = param := by
            rw [List.length_append, List.length_singleton, if_neg (Nat.succ_ne_zero _), Nat.add_sub_cancel, here]
          have next := ih (before ++ [param]) (last.levels mask) parts' previous'
          rw [List.length_append] at next
          exact next

theorem playEdges_withStart (last : PwmParam) (mask : BitVec 32) (masks : StartMasks) (param : List PwmParam) :
    playEdges last mask (withStart masks param) = playEdges last mask param := by
  induction param generalizing last mask with
  | nil => rfl
  | cons first rest ih =>
      cases rest with
      | nil => rfl
      | cons second rest =>
          have kept : withStart masks (first :: second :: rest) = first :: withStart masks (second :: rest) := rfl
          rw [kept, playEdges, ih]
          rfl

theorem withStart_last {param : List PwmParam} (some_ : param ≠ []) (masks : StartMasks) :
    ∃ time, (withStart masks param).getD (param.length - 1) default =
      ⟨time, masks.start_set_mask, masks.start_clr_mask⟩ := by
  have inside : param.length - 1 < param.length := Nat.sub_lt (List.length_pos_of_ne_nil some_) Nat.one_pos
  refine ⟨(param[param.length - 1]).edg_time, ?_⟩
  rw [withStart, List.getD_eq_getElem?_getD, List.getElem?_modify_eq, List.getElem?_eq_getElem inside]
  rfl

def Ascending (time : Nat) (param : List PwmParam) : Prop :=
  (time :: param.map PwmParam.edg_time).Pairwise (· < ·) ∧ ∀ e ∈ param, e.edg_time < 2 ^ 32

theorem Ascending.tail {time : Nat} {first : PwmParam} {rest : List PwmParam}
    (ascending : Ascending time (first :: rest)) : Ascending first.edg_time rest :=
  ⟨(List.pairwise_cons.mp ascending.1).2, fun e there => ascending.2 e (List.mem_cons_of_mem first there)⟩

theorem Ascending.after {time : Nat} {param : List PwmParam} (ascending : Ascending time param) :
    ∀ e ∈ param, time < e.edg_time := fun _ there =>
  (List.pairwise_cons.mp ascending.1).1 _ (List.mem_map_of_mem there)

theorem sub32_eq {a b : Nat} (less : b ≤ a) (small : a < 2 ^ 32) : sub32 a b = a - b := by
  unfold sub32
  omega

theorem playEdges_differencesFrom {time : Nat} {param : List PwmParam} (ascending : Ascending time param)
    (before : PwmParam) (mask : BitVec 32) :
    playEdges before mask (differencesFrom time param) = play time (before.levels mask) param := by
  induction param generalizing time before mask with
  | nil => rfl
  | cons first rest ih =>
      have less := ascending.after first List.mem_cons_self
      have small := ascending.2 first List.mem_cons_self
      rw [differencesFrom, playEdges, play, sub32_eq less.le small]
      exact congrArg _ (ih ascending.tail _ _)

theorem differences_eq (param : List PwmParam) (small : ∀ e ∈ param, e.edg_time < 2 ^ 32) :
    differences param = differencesFrom 0 param := by
  cases param with
  | nil => rfl
  | cons first rest =>
      rw [differences, differencesFrom, sub32_eq (Nat.zero_le _) (small first List.mem_cons_self)]
      rfl

def StartMasks.levels (masks : StartMasks) (mask : BitVec 32) : BitVec 32 :=
  PwmParam.levels ⟨0, masks.start_set_mask, masks.start_clr_mask⟩ mask

theorem cycleOf_eq {param : List PwmParam} (ascending : Ascending 0 param) (some_ : param ≠ []) (masks : StartMasks)
    (mask : BitVec 32) :
    cycleOf (withStart masks (differencesFrom 0 param)) mask = play 0 (masks.levels mask) param := by
  have some' : differencesFrom 0 param ≠ [] := fun empty => by
    have length := congrArg List.length empty
    rw [differencesFrom_length] at length
    exact some_ (List.length_eq_zero_iff.mp length)
  obtain ⟨time, last⟩ := withStart_last some' masks
  rw [← withStart_length masks] at last
  rw [cycleOf]
  exact (edgesFrom_eq [] mask rfl last).trans
    ((playEdges_withStart ..).trans (playEdges_differencesFrom ascending _ mask))

theorem levels_bit (param : PwmParam) (mask : BitVec 32) {b : Nat} (pin : b < 16) : (param.levels mask).getLsbD b =
    (param.io_set_mask.getLsbD b || (mask.getLsbD b && !param.io_clr_mask.getLsbD b)) := by
  have inside : b < 32 := by omega
  simp only [PwmParam.levels, BitVec.getLsbD_or, BitVec.getLsbD_and, BitVec.getLsbD_not, BitVec.truncate_eq_setWidth,
    BitVec.getLsbD_setWidth, inside, decide_true, Bool.true_and]
  exact Bool.or_comm _ _

theorem steady {wave : Nat → Bool} {time t : Nat} (later : time ≤ t)
    (same : ∀ t', time < t' → t' ≤ t → wave t' = wave (t' - 1)) : wave t = wave time := by
  induction t, later using Nat.le_induction with
  | base => rfl
  | succ t later ih =>
      rw [same (t + 1) (Nat.lt_succ_of_le later) (Nat.le_refl _), Nat.add_sub_cancel]
      exact ih fun t' after before => same t' after (before.trans (Nat.le_succ t))

theorem levelAt_play {wave : Nat → Bool} {b time : Nat} {level : BitVec 32} {param : List PwmParam}
    (ascending : Ascending time param) (starts : level.getLsbD b = wave time) {ends : Nat}
    (constant : ∀ t, time < t → t < ends → (∀ e ∈ param, e.edg_time ≠ t) → wave t = wave (t - 1))
    (edges : ∀ e ∈ param, e.edg_time < ends → ∀ level : BitVec 32, level.getLsbD b = wave (e.edg_time - 1) →
      (e.levels level).getLsbD b = wave e.edg_time)
    {t : Nat} (later : time ≤ t) (inside : t < ends) (covered : ∃ e ∈ param, ends ≤ e.edg_time) :
    (levelAt (play time level param) (t - time)).getLsbD b = wave t := by
  induction param generalizing time level with
  | nil =>
      obtain ⟨e, there, -⟩ := covered
      cases there
  | cons first rest ih =>
      have after := ascending.after first List.mem_cons_self
      have none_ (t' : Nat) (before : t' < first.edg_time) : ∀ e ∈ first :: rest, e.edg_time ≠ t' := fun e there same => by
        rcases List.mem_cons.mp there with rfl | there
        · omega
        · have := ascending.tail.after e there
          omega
      rw [play, levelAt]
      by_cases early : t < first.edg_time
      · rw [if_pos (by omega), starts]
        exact (steady later fun t' after' before => constant t' after' (by omega) (none_ t' (by omega))).symm
      · have past : first.edg_time ≤ t := Nat.le_of_not_lt early
        have before : level.getLsbD b = wave (first.edg_time - 1) := by
          rw [starts]
          exact (steady (by omega) fun t' after' before => constant t' after' (by omega) (none_ t' (by omega))).symm
        have here := edges first List.mem_cons_self (by omega) level before
        rw [if_neg (by omega), show t - time - (first.edg_time - time) = t - first.edg_time by omega]
        refine ih ascending.tail here (fun t' after' before' others => ?_)
          (fun e there => edges e (List.mem_cons_of_mem first there)) past ?_
        · refine constant t' (by omega) before' fun e there => ?_
          rcases List.mem_cons.mp there with rfl | there
          · omega
          · exact others e there
        · obtain ⟨e, there, long⟩ := covered
          rcases List.mem_cons.mp there with rfl | there
          · omega
          · exact ⟨e, there, long⟩

theorem play_ticks {time : Nat} (level : BitVec 32) {param : List PwmParam} (ascending : Ascending time param)
    {last : PwmParam} (ends : param.getLast? = some last) :
    time + ((play time level param).map Prod.snd).sum = last.edg_time := by
  induction param generalizing time level with
  | nil => cases ends
  | cons first rest ih =>
      have after := ascending.after first List.mem_cons_self
      rw [play, List.map_cons, List.sum_cons]
      cases rest with
      | nil =>
          obtain rfl : first = last := Option.some_inj.mp ends
          rw [play, List.map_nil, List.sum_nil]
          omega
      | cons second rest =>
          rw [List.getLast?_cons_cons] at ends
          have later := ih (first.levels level) ascending.tail ends
          omega

def Pulse (post neg t : Nat) : Prop := (post < neg → post ≤ t ∧ t < neg) ∧ (neg ≤ post → t < neg ∨ post ≤ t)

instance (post neg t : Nat) : Decidable (Pulse post neg t) := inferInstanceAs (Decidable (_ ∧ _))

theorem pulse_edge {post neg t : Nat} (later : 0 < t) {set clr : Bool} (sets : set = true ↔ post = t)
    (clears : clr = true ↔ neg = t) :
    (set || (decide (Pulse post neg (t - 1)) && !clr)) = decide (Pulse post neg t) := by
  rw [Bool.eq_iff_iff, Bool.or_eq_true, Bool.and_eq_true, Bool.not_eq_true', Bool.eq_false_iff, ne_eq, clears, sets,
    decide_eq_true_iff, decide_eq_true_iff]
  unfold Pulse
  omega

theorem pulse_swap {post neg t : Nat} (distinct : post ≠ neg) : Pulse neg post t ↔ ¬ Pulse post neg t := by
  unfold Pulse
  omega

theorem around {depth post neg : Nat} {start high : Int} (positive : 0 < high) (short : high < depth)
    (post_ : (post : Int) = start % depth) (neg_ : (neg : Int) = (start + high) % depth) :
    (neg : Int) = if post + high < depth then post + high else post + high - depth := by
  have postLess : (post : Int) < depth := post_ ▸ Int.emod_lt_of_pos start (by omega)
  rw [neg_, ← Int.emod_add_emod, ← post_]
  split
  next before => exact Int.emod_eq_of_lt (by omega) before
  next wraps => rw [← Int.sub_emod_right, Int.emod_eq_of_lt (by omega) (by omega)]

theorem pulse_shifted {depth post neg t : Nat} {start high : Int} (inside : t < depth)
    (positive : 0 < high) (short : high < depth) (post_ : (post : Int) = start % depth)
    (neg_ : (neg : Int) = (start + high) % depth) :
    post ≠ neg ∧ (Pulse post neg t ↔ (t - start) % depth < high) := by
  have some_ : (0 : Int) < depth := by omega
  have postLess : (post : Int) < depth := post_ ▸ Int.emod_lt_of_pos start some_
  have negShift := around positive short post_ neg_
  have shift : (t - start) % (depth : Int) = if post ≤ t then (t : Int) - post else t - post + depth := by
    rw [← Int.sub_emod_emod, ← post_]
    split
    next after => exact Int.emod_eq_of_lt (by omega) (by omega)
    next before => rw [← Int.add_emod_right, Int.emod_eq_of_lt (by omega) (by omega)]
  rw [shift]
  unfold Pulse
  constructor
  · split at negShift <;> omega
  · split at negShift <;> split <;> omega

structure TableParts (edges : List PwmParam) (depth : Nat) (masks masks' : StartMasks) (param : List PwmParam) : Prop where
  ascending : Ascending 0 param
  ends : ∃ last, param.getLast? = some last ∧ last.edg_time = depth
  set : ∀ e ∈ param, e.edg_time < depth → ∀ b,
    e.io_set_mask.getLsbD b = true ↔ HasBit PwmParam.io_set_mask edges e.edg_time b
  clr : ∀ e ∈ param, e.edg_time < depth → ∀ b,
    e.io_clr_mask.getLsbD b = true ↔ HasBit PwmParam.io_clr_mask edges e.edg_time b
  times : ∀ e ∈ edges, 0 < e.edg_time → ∃ e' ∈ param, e'.edg_time = e.edg_time
  startSet : ∀ b, masks'.start_set_mask.getLsbD b = true ↔
    masks.start_set_mask.getLsbD b = true ∨ HasBit PwmParam.io_set_mask edges 0 b
  startClr : ∀ b, masks'.start_clr_mask.getLsbD b = true ↔
    masks.start_clr_mask.getLsbD b = true ∨ HasBit PwmParam.io_clr_mask edges 0 b

section
variable {edges : List PwmParam} {depth : Nat} (inside : ∀ e ∈ edges, e.edg_time < depth) (left : StartMasks)
include inside

theorem allEdges_sorted : (mergeEdges (pwm_insert_sort edges ++
    [⟨depth, left.start_set_mask, left.start_clr_mask⟩])).Pairwise fun a b => a.edg_time < b.edg_time := by
  refine mergeEdges_sorted (List.pairwise_append.mpr ⟨insertSort_sorted edges, List.pairwise_singleton .., ?_⟩)
  intro e there last same
  rw [List.mem_singleton.mp same]
  exact (inside e (mem_insertSort.mp there)).le

theorem allEdges_bit {f : PwmParam → BitVec 16}
    (ors : ∀ p q : PwmParam, f ⟨p.edg_time, p.io_set_mask ||| q.io_set_mask, p.io_clr_mask ||| q.io_clr_mask⟩ = f p ||| f q)
    {e : PwmParam} (there : e ∈ mergeEdges (pwm_insert_sort edges ++
      [⟨depth, left.start_set_mask, left.start_clr_mask⟩])) (before : e.edg_time < depth) (b : Nat) :
    (f e).getLsbD b = true ↔ HasBit f edges e.edg_time b := by
  have merged := mergeEdges_bit ors (pwm_insert_sort edges ++
    [⟨depth, left.start_set_mask, left.start_clr_mask⟩]) e.edg_time b
  have sorted := allEdges_sorted inside left
  constructor
  · intro bit
    obtain ⟨e', there', time, bit'⟩ := merged.mp ⟨e, there, rfl, bit⟩
    rcases List.mem_append.mp there' with there' | last
    · exact ⟨e', mem_insertSort.mp there', time, bit'⟩
    · rw [List.mem_singleton.mp last] at time
      exact absurd time before.ne'
  · rintro ⟨e', there', time, bit'⟩
    obtain ⟨e'', there'', time'', bit''⟩ := merged.mpr ⟨e', List.mem_append_left _ (mem_insertSort.mpr there'), time, bit'⟩
    have distinct := List.pairwise_map.mpr (sorted.imp fun less => less.ne)
    have same : e'' = e := List.inj_on_of_nodup_map distinct there'' there time''
    exact same ▸ bit''

theorem allEdges_ends : ∃ front last, mergeEdges (pwm_insert_sort edges ++
    [⟨depth, left.start_set_mask, left.start_clr_mask⟩]) = front ++ [last] ∧ last.edg_time = depth ∧
      ∀ e ∈ front, e.edg_time < depth := by
  obtain ⟨front, last, same, time⟩ :=
    mergeEdges_last (pwm_insert_sort edges) ⟨depth, left.start_set_mask, left.start_clr_mask⟩
  have sorted := allEdges_sorted inside left
  rw [same] at sorted
  refine ⟨front, last, same, time, fun e there => ?_⟩
  exact ((List.pairwise_append.mp sorted).2.2 e there last List.mem_cons_self).trans_eq time

theorem tableParts (masks : StartMasks) (positive : 0 < depth) (small : depth < 2 ^ 32) :
    ∃ masks' param, dropFirst masks (differences (mergeEdges (pwm_insert_sort edges ++
        [⟨depth, left.start_set_mask, left.start_clr_mask⟩]))) = (masks', differencesFrom 0 param) ∧
      TableParts edges depth masks masks' param := by
  have sorted := allEdges_sorted inside left
  have set {e : PwmParam} := allEdges_bit inside left (e := e) (f := PwmParam.io_set_mask) fun _ _ => rfl
  have clr {e : PwmParam} := allEdges_bit inside left (e := e) (f := PwmParam.io_clr_mask) fun _ _ => rfl
  have times : ∀ e ∈ edges, ∃ e' ∈ mergeEdges (pwm_insert_sort edges ++
      [⟨depth, left.start_set_mask, left.start_clr_mask⟩]), e'.edg_time = e.edg_time := fun e there =>
    (mergeEdges_times _ _).mpr ⟨e, List.mem_append_left _ (mem_insertSort.mpr there), rfl⟩
  obtain ⟨front, last, same, time, before⟩ := allEdges_ends inside left
  have long : ∀ e ∈ mergeEdges (pwm_insert_sort edges ++
      [⟨depth, left.start_set_mask, left.start_clr_mask⟩]), e.edg_time < 2 ^ 32 := by
    rw [same]
    intro e there
    rcases List.mem_append.mp there with there | there
    · exact (before e there).trans small
    · rw [List.mem_singleton.mp there, time]
      exact small
  generalize mergeEdges (pwm_insert_sort edges ++ [⟨depth, left.start_set_mask, left.start_clr_mask⟩]) = all at *
  cases all with
  | nil => exact absurd same.symm (List.append_ne_nil_of_right_ne_nil _ (List.cons_ne_nil _ _))
  | cons first rest =>
      have after := List.pairwise_cons.mp sorted
      by_cases zero : first.edg_time = 0
      · refine ⟨(masks.set first.io_set_mask).clr first.io_clr_mask, rest, ?_, ?_⟩
        · rw [differences, dropFirst, if_pos zero, zero]
        · have begin_ := set List.mem_cons_self (zero ▸ positive)
          have begin' := clr List.mem_cons_self (zero ▸ positive)
          rw [zero] at begin_ begin'
          refine ⟨⟨?_, fun e there => long e (List.mem_cons_of_mem _ there)⟩, ?_,
            fun e there => set (List.mem_cons_of_mem _ there), fun e there => clr (List.mem_cons_of_mem _ there),
            fun e there later => ?_, fun b => ?_, fun b => ?_⟩
          · have all := List.pairwise_map.mpr sorted
            rw [List.map_cons, zero] at all
            exact all
          · cases front with
            | nil =>
                cases same
                exact absurd (zero.symm.trans time) positive.ne
            | cons _ front =>
                rw [List.cons_append, List.cons.injEq] at same
                exact ⟨last, by rw [same.2, List.getLast?_concat], time⟩
          · obtain ⟨e', there', time'⟩ := times e there
            rcases List.mem_cons.mp there' with rfl | there'
            · omega
            · exact ⟨e', there', time'⟩
          · rw [← begin_ b]
            simp [StartMasks.set, StartMasks.clr]
          · rw [← begin' b]
            simp [StartMasks.set, StartMasks.clr]
      · refine ⟨masks, first :: rest, ?_, ?_⟩
        · rw [← differences_eq _ long, differences, dropFirst, if_neg zero]
        · have none_ (f : PwmParam → BitVec 16) (b : Nat) : ¬ HasBit f edges 0 b := by
            rintro ⟨e, there, begin_, -⟩
            obtain ⟨e', there', time'⟩ := times e there
            rcases List.mem_cons.mp there' with rfl | there'
            · exact zero (time'.trans begin_)
            · have := after.1 e' there'
              omega
          refine ⟨⟨?_, long⟩, ⟨last, by rw [same, List.getLast?_concat], time⟩, fun e there => set there,
            fun e there => clr there, fun e there _ => times e there, fun b => ?_, fun b => ?_⟩
          · refine List.pairwise_cons.mpr ⟨fun t there => ?_, List.pairwise_map.mpr sorted⟩
            obtain ⟨e, there', rfl⟩ := List.mem_map.mp there
            rcases List.mem_cons.mp there' with rfl | there'
            · exact Nat.pos_of_ne_zero zero
            · exact (Nat.zero_le _).trans_lt (after.1 e there')
          · exact (or_iff_left (none_ _ b)).symm
          · exact (or_iff_left (none_ _ b)).symm

end

theorem TableParts.wave {edges : List PwmParam} {depth : Nat} {masks masks' : StartMasks} {param : List PwmParam}
    (parts : TableParts edges depth masks masks' param) (wave : Nat → Bool) {b : Nat} {mask : BitVec 32}
    (starts : (masks'.levels mask).getLsbD b = wave 0)
    (changes : ∀ t, 0 < t → ∀ set clr : Bool, (set = true ↔ HasBit PwmParam.io_set_mask edges t b) →
      (clr = true ↔ HasBit PwmParam.io_clr_mask edges t b) → (set || (wave (t - 1) && !clr)) = wave t)
    (pin : b < 16) {t : Nat} (inside : t < depth) :
    (levelAt (cycleOf (withStart masks' (differencesFrom 0 param)) mask) t).getLsbD b = wave t := by
  obtain ⟨last, ends, time⟩ := parts.ends
  have there := List.mem_of_getLast? ends
  rw [cycleOf_eq parts.ascending (List.ne_nil_of_mem there)]
  refine levelAt_play parts.ascending starts (fun t later _ others => ?_) (fun e there before level same => ?_)
    (Nat.zero_le t) inside ⟨last, there, time.ge⟩
  · have none_ (f : PwmParam → BitVec 16) : false = true ↔ HasBit f edges t b := by
      refine iff_of_false Bool.false_ne_true ?_
      rintro ⟨e, there, time, -⟩
      obtain ⟨e', there', time'⟩ := parts.times e there (time ▸ later)
      exact others e' there' (time'.trans time)
    have same := changes t later false false (none_ _) (none_ _)
    rw [← same, Bool.false_or, Bool.not_false, Bool.and_true]
  · have later := parts.ascending.after e there
    rw [levels_bit e level pin, same]
    exact changes _ later _ _ (parts.set e there before b) (parts.clr e there before b)

theorem TableParts.ticks {edges : List PwmParam} {depth : Nat} {masks masks' : StartMasks} {param : List PwmParam}
    (parts : TableParts edges depth masks masks' param) (mask : BitVec 32) :
    ((cycleOf (withStart masks' (differencesFrom 0 param)) mask).map Prod.snd).sum = depth := by
  obtain ⟨last, ends, time⟩ := parts.ends
  rw [cycleOf_eq parts.ascending (List.ne_nil_of_mem (List.mem_of_getLast? ends)), ← time,
    ← play_ticks (masks'.levels mask) parts.ascending ends, Nat.zero_add]

end EspFirmware.Driver
