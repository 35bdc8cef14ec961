import EspFirmware.Proof.Driver.PwmWave
import Mathlib.Algebra.Order.Group.Abs

namespace EspFirmware.Driver
open Lib Spec

def StartMasks.or (masks masks' : StartMasks) : StartMasks :=
  ⟨masks.start_set_mask ||| masks'.start_set_mask, masks.start_clr_mask ||| masks'.start_clr_mask⟩

theorem foldl_or_bit {f : StartMasks → BitVec 16} (ors : ∀ m m' : StartMasks, f (m.or m') = f m ||| f m')
    (l : List StartMasks) (masks : StartMasks) (b : Nat) : (f (l.foldl StartMasks.or masks)).getLsbD b = true ↔
      (f masks).getLsbD b = true ∨ ∃ m ∈ l, (f m).getLsbD b = true := by
  induction l generalizing masks with
  | nil => simp
  | cons m l ih => rw [List.foldl_cons, ih, ors, BitVec.getLsbD_or, Bool.or_eq_true, List.exists_mem_cons_iff, or_assoc]

theorem channel_or (masks : StartMasks) (channel : PwmChannelParam) :
    masks.channel channel = masks.or (StartMasks.channel ⟨0, 0⟩ channel) := by
  unfold StartMasks.channel
  repeat' split
  all_goals simp [StartMasks.or, StartMasks.set, StartMasks.clr]

theorem foldl_channel (channels : List PwmChannelParam) (masks : StartMasks) : channels.foldl StartMasks.channel masks =
    (channels.map (StartMasks.channel ⟨0, 0⟩)).foldl StartMasks.or masks := by
  induction channels generalizing masks with
  | nil => rfl
  | cons channel channels ih => rw [List.foldl_cons, channel_or, ih, List.map_cons, List.foldl_cons]

section
variable (s : PwmSettings) (convert : Nat → Nat → Nat → Nat)

def undelayed (i : Nat) (info : PwmInfo) : StartMasks × PwmChannelParam := s.channelEdges convert i info ⟨0, 0⟩

theorem channelEdges_eq (i : Nat) (info : PwmInfo) (masks : StartMasks) :
    s.channelEdges convert i info masks = (masks.or (undelayed s convert i info).1, (undelayed s convert i info).2) := by
  unfold undelayed PwmSettings.channelEdges
  simp only
  repeat' split
  all_goals simp [StartMasks.or, StartMasks.set, StartMasks.clr]

theorem channels_eq (k : Nat) (infos : List PwmInfo) (masks : StartMasks) : s.channels convert k infos masks =
    ((infos.mapIdx fun j info => (undelayed s convert (k + j) info).1).foldl StartMasks.or masks,
      infos.mapIdx fun j info => (undelayed s convert (k + j) info).2) := by
  induction infos generalizing k masks with
  | nil => rfl
  | cons info infos ih =>
      rw [PwmSettings.channels, channelEdges_eq]
      simp only [ih, List.mapIdx_cons, List.foldl_cons, Nat.add_zero, Nat.add_assoc, Nat.add_comm 1]

def delayedChannel (i : Nat) (info : PwmInfo) : PwmChannelParam :=
  s.pwm_phase_init info (undelayed s convert i info).2

def allChannels : List PwmChannelParam := s.pwm_info.mapIdx (delayedChannel s convert)

def startMasks : StartMasks :=
  ((s.pwm_info.mapIdx fun i info => (undelayed s convert i info).1) ++
    (allChannels s convert).map (StartMasks.channel ⟨0, 0⟩)).foldl StartMasks.or ⟨0, 0⟩

theorem table_eq (left : StartMasks) : s.table convert left =
    (let (masks, param) := dropFirst (startMasks s convert) (differences (mergeEdges (pwm_insert_sort
      ((allChannels s convert).flatMap PwmChannelParam.edges) ++ [⟨s.depth, left.start_set_mask, left.start_clr_mask⟩])))
    withStart masks param) := by
  have delayed : List.zipWith s.pwm_phase_init s.pwm_info (s.pwm_info.mapIdx fun i info => (undelayed s convert i info).2) =
      allChannels s convert := by
    refine List.ext_getElem? fun i => ?_
    rw [List.getElem?_zipWith, List.getElem?_mapIdx, allChannels, List.getElem?_mapIdx]
    cases s.pwm_info[i]? <;> rfl
  have channels := channels_eq s convert 0 s.pwm_info ⟨0, 0⟩
  simp only [Nat.zero_add] at channels
  simp only [PwmSettings.table, channels, delayed, foldl_channel, startMasks, List.foldl_append]

end

theorem near_iff {time numerator denominator : Int} : Near time numerator denominator ↔
    -denominator ≤ time * denominator - numerator ∧ time * denominator - numerator ≤ denominator := abs_le

section
variable {s : PwmSettings} {convert : Nat → Nat → Nat → Nat} {info : PwmInfo}

theorem timeDelay_eq {phase : Int} (range : -180 < phase ∧ phase < 180) (short : phase.natAbs * s.depth / 180 < 2 ^ 15) :
    s.timeDelay phase = phase.sign * (phase.natAbs * s.depth / 180 : Nat) := by
  have product : phase.natAbs * s.depth < 2 ^ 32 := by omega
  have noWrap {n : Nat} (less : n < 2 ^ 32) : ((n : Int) % 2 ^ 32) / 180 = (n / 180 : Nat) := by omega
  unfold PwmSettings.timeDelay
  rcases Int.lt_trichotomy phase 0 with negative | rfl | positive
  · have abs : -phase * (s.depth : Int) = (phase.natAbs * s.depth : Nat) := by
      rw [Int.natCast_mul, Int.ofNat_natAbs_of_nonpos negative.le]
    simp only [if_pos negative, abs, noWrap product, Int.sign_eq_neg_one_of_neg negative]
    rw [Int.bmod_eq_of_le (by omega) (by omega)]
    omega
  · simp
  · have abs : phase * (s.depth : Int) = (phase.natAbs * s.depth : Nat) := by
      rw [Int.natCast_mul, Int.natAbs_of_nonneg positive.le]
    simp only [if_neg positive.not_gt, abs, noWrap product, Int.sign_eq_one_of_pos positive]
    rw [Int.bmod_eq_of_le (by omega) (by omega)]
    omega

theorem timeDelay_near {phase : Int} (range : -180 < phase ∧ phase < 180) (positive : 0 < s.depth)
    (short : phase.natAbs * s.depth / 180 < 2 ^ 15) :
    Near (s.timeDelay phase) (phase * s.depth) 180 ∧ (s.timeDelay phase).natAbs < s.depth := by
  rw [timeDelay_eq range short]
  have less : phase.natAbs * s.depth / 180 < s.depth := by
    refine Nat.div_lt_of_lt_mul ?_
    exact Nat.mul_lt_mul_of_pos_right (by omega) positive
  have abs : phase * (s.depth : Int) = phase.sign * (phase.natAbs * s.depth : Nat) := by
    rw [Int.natCast_mul, ← Int.mul_assoc, Int.sign_mul_natAbs]
  rw [abs, near_iff]
  generalize phase.natAbs * s.depth = product at *
  rcases Int.lt_trichotomy phase 0 with negative | rfl | positive'
  · rw [Int.sign_eq_neg_one_of_neg negative]
    omega
  · rw [Int.sign_zero]
    omega
  · rw [Int.sign_eq_one_of_pos positive']
    omega

theorem delayed_eq {phase : Int} (other : phase ≠ 0) (range : -180 < phase ∧ phase < 180)
    (short : phase.natAbs * s.depth / 180 < 2 ^ 15) {time : Nat} (inside : time < s.depth) :
    s.delayed (s.timeDelay phase) time = ((s.timeDelay phase + time) % s.depth).toNat := by
  obtain ⟨-, less⟩ := timeDelay_near range (Nat.zero_lt_of_lt inside) short
  have small : s.depth < 2 ^ 15 * 180 := by
    have : 1 * s.depth ≤ phase.natAbs * s.depth := Nat.mul_le_mul_right _ (by omega)
    omega
  generalize s.timeDelay phase = delay at *
  have noWrap : (delay + time + s.depth) % 2 ^ 32 = delay + time + s.depth := Int.emod_eq_of_lt (by omega) (by omega)
  rw [PwmSettings.delayed, noWrap, ← Int.add_emod_right (delay + time)]
  rw [Int.toNat_emod (by omega) (by omega), Int.toNat_natCast]

theorem delayedChannel_eq {i : Nat} (range : -180 < info.phase ∧ info.phase < 180)
    (short : info.phase.natAbs * s.depth / 180 < 2 ^ 15)
    (inside : (undelayed s convert i info).2.post_edg_time < s.depth ∧
      (undelayed s convert i info).2.neg_edg_time < s.depth) :
    delayedChannel s convert i info = ⟨(undelayed s convert i info).2.io_mask,
      ((s.timeDelay info.phase + (undelayed s convert i info).2.post_edg_time) % s.depth).toNat,
      ((s.timeDelay info.phase + (undelayed s convert i info).2.neg_edg_time) % s.depth).toNat⟩ := by
  unfold delayedChannel PwmSettings.pwm_phase_init
  by_cases zero : info.phase = 0
  · have none_ : s.timeDelay 0 = 0 := by simp [PwmSettings.timeDelay]
    have kept {time : Nat} (inside : time < s.depth) : (((0 : Int) + time) % s.depth).toNat = time := by
      rw [zero_add, Int.emod_eq_of_lt (by omega) (by omega), Int.toNat_natCast]
    rw [if_pos zero, zero, none_, kept inside.1, kept inside.2]
  · rw [if_neg zero, if_pos range, delayed_eq zero range short inside.1, delayed_eq zero range short inside.2]

end

theorem pin_bit {n : Nat} (pin : n < 16) (b : Nat) : (BitVec.ofNat 16 (2 ^ n)).getLsbD b = true ↔ n = b := by
  rw [BitVec.getLsbD_ofNat, Nat.testBit_two_pow, Bool.and_eq_true, decide_eq_true_iff, decide_eq_true_iff]
  omega

section
variable {s : PwmSettings} {convert : Nat → Nat → Nat → Nat}

abbrev inverted (s : PwmSettings) (i : Nat) : Bool := s.channel_invert_bitmap.getLsbD i

theorem undelayed_constant (convert : Nat → Nat → Nat → Nat) (i : Nat) {info : PwmInfo} (pin : info.io_num < 16)
    (positive : 0 < s.depth)
    (full : info.duty = 0 ∨ info.duty = s.depth) : ∃ masks, undelayed s convert i info = (masks, ⟨0, 0, 0⟩) ∧
      ∀ b, (masks.start_set_mask.getLsbD b = true ↔ info.io_num = b ∧ xor (inverted s i) (info.duty != 0) = true) ∧
        (masks.start_clr_mask.getLsbD b = true ↔ info.io_num = b ∧ xor (inverted s i) (info.duty != 0) = false) := by
  have bit := pin_bit pin
  unfold undelayed PwmSettings.channelEdges
  generalize BitVec.ofNat 16 (2 ^ info.io_num) = mask at *
  rcases full with zero | full
  · cases invert : s.channel_invert_bitmap.getLsbD i with
    | true => exact ⟨_, by simp [zero]; rfl, fun b => by simp [inverted, invert, zero, StartMasks.set, bit]⟩
    | false => exact ⟨_, by simp [zero]; rfl, fun b => by simp [inverted, invert, zero, StartMasks.clr, bit]⟩
  · have some_ : info.duty ≠ 0 := full ▸ positive.ne'
    cases invert : s.channel_invert_bitmap.getLsbD i with
    | true =>
        exact ⟨_, by simp [full, positive.ne']; rfl, fun b => by simp [inverted, invert, some_, StartMasks.clr, bit]⟩
    | false =>
        exact ⟨_, by simp [full, positive.ne']; rfl, fun b => by simp [inverted, invert, some_, StartMasks.set, bit]⟩

theorem undelayed_pulse {i : Nat} {info : PwmInfo} (some_ : info.duty ≠ 0) (partly : info.duty ≠ s.depth) :
    undelayed s convert i info = (⟨0, 0⟩, if inverted s i then
      ⟨BitVec.ofNat 16 (2 ^ info.io_num), convert s.period info.duty s.depth, 0⟩
    else ⟨BitVec.ofNat 16 (2 ^ info.io_num), 0, convert s.period info.duty s.depth⟩) := by
  unfold undelayed PwmSettings.channelEdges usToTicks
  cases invert : s.channel_invert_bitmap.getLsbD i <;> simp [inverted, invert, some_, partly]

theorem only_own (proper : Proper s) {i : Nat} {info : PwmInfo} (here : s.pwm_info[i]? = some info)
    {P : Nat → PwmInfo → Prop} (own : ∀ j other, s.pwm_info[j]? = some other → P j other → other.io_num = info.io_num) :
    (∃ j other, s.pwm_info[j]? = some other ∧ P j other) ↔ P i info := by
  constructor
  · rintro ⟨j, other, there, holds⟩
    have same := own j other there holds
    have inside : i < (s.pwm_info.map PwmInfo.io_num).length := by
      rw [List.length_map]
      exact (List.getElem?_eq_some_iff.mp here).1
    have index : i = j := (List.getElem?_inj inside proper.pins).mp (by simp [here, there, same])
    subst index
    obtain rfl : info = other := Option.some_inj.mp (here.symm.trans there)
    exact holds
  · exact fun holds => ⟨i, info, here, holds⟩

theorem mem_mapIdx_iff {f : Nat → PwmInfo → β} {infos : List PwmInfo} {x : β} :
    x ∈ infos.mapIdx f ↔ ∃ j info, infos[j]? = some info ∧ f j info = x := by
  simp only [List.mem_iff_getElem?, List.getElem?_mapIdx, Option.map_eq_some_iff]

theorem mask_own (proper : Proper s) {i b : Nat} {info : PwmInfo} (here : s.pwm_info[i]? = some info)
    (bit : (undelayed s convert i info).2.io_mask.getLsbD b = true) : info.io_num = b := by
  have pin := proper.pin info (List.mem_of_getElem? here)
  by_cases full : info.duty = 0 ∨ info.duty = s.depth
  · obtain ⟨masks, same, -⟩ := undelayed_constant convert i pin proper.depth.1 full
    rw [same] at bit
    simp at bit
  · rw [not_or] at full
    rw [undelayed_pulse full.1 full.2] at bit
    refine (pin_bit pin b).mp ?_
    split at bit <;> exact bit

theorem start_own (proper : Proper s) {i b : Nat} {info : PwmInfo} (here : s.pwm_info[i]? = some info)
    (bit : (undelayed s convert i info).1.start_set_mask.getLsbD b = true ∨
      (undelayed s convert i info).1.start_clr_mask.getLsbD b = true) : info.io_num = b := by
  have pin := proper.pin info (List.mem_of_getElem? here)
  by_cases full : info.duty = 0 ∨ info.duty = s.depth
  · obtain ⟨masks, same, bits⟩ := undelayed_constant convert i pin proper.depth.1 full
    rw [same] at bit
    exact bit.elim (fun set => ((bits b).1.mp set).1) (fun clr => ((bits b).2.mp clr).1)
  · rw [not_or] at full
    rw [undelayed_pulse full.1 full.2] at bit
    simp at bit

theorem phase_init_mask (info : PwmInfo) (channel : PwmChannelParam) :
    (s.pwm_phase_init info channel).io_mask = channel.io_mask := by
  unfold PwmSettings.pwm_phase_init
  repeat' split
  all_goals rfl

theorem channel_bits (channel : PwmChannelParam) (b : Nat) :
    ((StartMasks.channel ⟨0, 0⟩ channel).start_set_mask.getLsbD b = true ↔ channel.io_mask.getLsbD b = true ∧
      channel.post_edg_time ≠ channel.neg_edg_time ∧
        (channel.post_edg_time = 0 ∨ channel.neg_edg_time < channel.post_edg_time ∧ channel.neg_edg_time ≠ 0)) ∧
    ((StartMasks.channel ⟨0, 0⟩ channel).start_clr_mask.getLsbD b = true ↔ channel.io_mask.getLsbD b = true ∧
      channel.post_edg_time ≠ channel.neg_edg_time ∧
        (channel.neg_edg_time = 0 ∨ channel.post_edg_time < channel.neg_edg_time ∧ channel.post_edg_time ≠ 0)) := by
  have none_ : (0 : BitVec 16).getLsbD b = false := by simp
  unfold StartMasks.channel
  repeat' split
  all_goals
    simp only [StartMasks.set, StartMasks.clr, BitVec.getLsbD_or, none_, Bool.false_or, Bool.false_eq_true]
    generalize channel.io_mask.getLsbD b = bit
    cases bit with
    | false => simp
    | true =>
        simp
        omega

theorem startMasks_bit (proper : Proper s) {i : Nat} {info : PwmInfo} (here : s.pwm_info[i]? = some info)
    {f : StartMasks → BitVec 16} (ors : ∀ m m' : StartMasks, f (m.or m') = f m ||| f m') (empty : f ⟨0, 0⟩ = 0)
    (start : ∀ j other b, s.pwm_info[j]? = some other → (f (undelayed s convert j other).1).getLsbD b = true →
      other.io_num = b)
    (later : ∀ j other b, s.pwm_info[j]? = some other →
      (f (StartMasks.channel ⟨0, 0⟩ (delayedChannel s convert j other))).getLsbD b = true → other.io_num = b) :
    (f (startMasks s convert)).getLsbD info.io_num = true ↔
      (f (undelayed s convert i info).1).getLsbD info.io_num = true ∨
        (f (StartMasks.channel ⟨0, 0⟩ (delayedChannel s convert i info))).getLsbD info.io_num = true := by
  rw [startMasks, foldl_or_bit ors, empty, ← only_own proper here
    (P := fun j other => (f (undelayed s convert j other).1).getLsbD info.io_num = true ∨
      (f (StartMasks.channel ⟨0, 0⟩ (delayedChannel s convert j other))).getLsbD info.io_num = true)
    fun j other there bit => bit.elim (start j other _ there) (later j other _ there)]
  constructor
  · rintro (bit | ⟨m, there, bit⟩)
    · simp at bit
    · rcases List.mem_append.mp there with there | there
      · obtain ⟨j, other, at_, rfl⟩ := mem_mapIdx_iff.mp there
        exact ⟨j, other, at_, .inl bit⟩
      · obtain ⟨channel, there', rfl⟩ := List.mem_map.mp there
        obtain ⟨j, other, at_, rfl⟩ := mem_mapIdx_iff.mp there'
        exact ⟨j, other, at_, .inr bit⟩
  · rintro ⟨j, other, at_, bit | bit⟩
    · exact .inr ⟨_, List.mem_append_left _ (mem_mapIdx_iff.mpr ⟨j, other, at_, rfl⟩), bit⟩
    · exact .inr ⟨_, List.mem_append_right _ (List.mem_map_of_mem (mem_mapIdx_iff.mpr ⟨j, other, at_, rfl⟩)), bit⟩

theorem edges_bit (convert : Nat → Nat → Nat → Nat) (proper : Proper s) {i : Nat} {info : PwmInfo}
    (here : s.pwm_info[i]? = some info) (t : Nat) :
    (HasBit PwmParam.io_set_mask ((allChannels s convert).flatMap PwmChannelParam.edges) t info.io_num ↔
      (delayedChannel s convert i info).io_mask.getLsbD info.io_num = true ∧
        (delayedChannel s convert i info).post_edg_time = t) ∧
    (HasBit PwmParam.io_clr_mask ((allChannels s convert).flatMap PwmChannelParam.edges) t info.io_num ↔
      (delayedChannel s convert i info).io_mask.getLsbD info.io_num = true ∧
        (delayedChannel s convert i info).neg_edg_time = t) := by
  have own (time : PwmChannelParam → Nat) (j : Nat) (other : PwmInfo) (there : s.pwm_info[j]? = some other)
      (bit : (delayedChannel s convert j other).io_mask.getLsbD info.io_num = true ∧
        time (delayedChannel s convert j other) = t) : other.io_num = info.io_num := by
    rw [delayedChannel, phase_init_mask] at bit
    exact mask_own proper there bit.1
  have none_ : (0 : BitVec 16).getLsbD info.io_num = false := by simp
  constructor
  · rw [← only_own proper here (P := fun j other => (delayedChannel s convert j other).io_mask.getLsbD info.io_num = true ∧
      (delayedChannel s convert j other).post_edg_time = t) (own PwmChannelParam.post_edg_time)]
    constructor
    · rintro ⟨e, there, time, bit⟩
      obtain ⟨channel, there', edge⟩ := List.mem_flatMap.mp there
      obtain ⟨j, other, at_, rfl⟩ := mem_mapIdx_iff.mp there'
      simp only [PwmChannelParam.edges, List.mem_cons, List.not_mem_nil, or_false] at edge
      rcases edge with rfl | rfl
      · exact ⟨j, other, at_, bit, time⟩
      · exact absurd bit (by rw [none_]; exact Bool.false_ne_true)
    · rintro ⟨j, other, at_, bit, time⟩
      exact ⟨_, List.mem_flatMap.mpr ⟨_, mem_mapIdx_iff.mpr ⟨j, other, at_, rfl⟩, List.mem_cons_self⟩, time, bit⟩
  · rw [← only_own proper here (P := fun j other => (delayedChannel s convert j other).io_mask.getLsbD info.io_num = true ∧
      (delayedChannel s convert j other).neg_edg_time = t) (own PwmChannelParam.neg_edg_time)]
    constructor
    · rintro ⟨e, there, time, bit⟩
      obtain ⟨channel, there', edge⟩ := List.mem_flatMap.mp there
      obtain ⟨j, other, at_, rfl⟩ := mem_mapIdx_iff.mp there'
      simp only [PwmChannelParam.edges, List.mem_cons, List.not_mem_nil, or_false] at edge
      rcases edge with rfl | rfl
      · exact absurd bit (by rw [none_]; exact Bool.false_ne_true)
      · exact ⟨j, other, at_, bit, time⟩
    · rintro ⟨j, other, at_, bit, time⟩
      exact ⟨_, List.mem_flatMap.mpr ⟨_, mem_mapIdx_iff.mpr ⟨j, other, at_, rfl⟩,
        List.mem_cons_of_mem _ List.mem_cons_self⟩, time, bit⟩

theorem start_levels {masks : StartMasks} {b : Nat} (pin : b < 16) {level : Bool}
    (sets : masks.start_set_mask.getLsbD b = true ↔ level = true)
    (clears : masks.start_clr_mask.getLsbD b = true ↔ level = false) (mask : BitVec 32) :
    (masks.levels mask).getLsbD b = level := by
  rw [StartMasks.levels, levels_bit _ mask pin]
  simp only
  cases level with
  | true => rw [sets.mpr rfl, Bool.true_or]
  | false => rw [clears.mpr rfl, Bool.eq_false_iff.mpr (mt sets.mp Bool.false_ne_true), Bool.not_true, Bool.and_false,
      Bool.or_false]

section
variable (proper : Proper s) {i : Nat} {info : PwmInfo} (here : s.pwm_info[i]? = some info)
include proper here

theorem start_bits (convert : Nat → Nat → Nat → Nat) : ((startMasks s convert).start_set_mask.getLsbD info.io_num = true ↔
      (undelayed s convert i info).1.start_set_mask.getLsbD info.io_num = true ∨
        (StartMasks.channel ⟨0, 0⟩ (delayedChannel s convert i info)).start_set_mask.getLsbD info.io_num = true) ∧
    ((startMasks s convert).start_clr_mask.getLsbD info.io_num = true ↔
      (undelayed s convert i info).1.start_clr_mask.getLsbD info.io_num = true ∨
        (StartMasks.channel ⟨0, 0⟩ (delayedChannel s convert i info)).start_clr_mask.getLsbD info.io_num = true) := by
  have own (j : Nat) (other : PwmInfo) (b : Nat) (there : s.pwm_info[j]? = some other)
      (bit : (delayedChannel s convert j other).io_mask.getLsbD b = true) : other.io_num = b := by
    rw [delayedChannel, phase_init_mask] at bit
    exact mask_own proper there bit
  constructor
  · exact startMasks_bit proper here (f := StartMasks.start_set_mask) (fun _ _ => rfl) rfl
      (fun j other b there bit => start_own proper there (.inl bit))
      fun j other b there bit => own j other b there ((channel_bits _ b).1.mp bit).1
  · exact startMasks_bit proper here (f := StartMasks.start_clr_mask) (fun _ _ => rfl) rfl
      (fun j other b there bit => start_own proper there (.inr bit))
      fun j other b there bit => own j other b there ((channel_bits _ b).2.mp bit).1

variable {masks : StartMasks} {param : List PwmParam}
  (parts : TableParts ((allChannels s convert).flatMap PwmChannelParam.edges) s.depth (startMasks s convert) masks param)
  (mask : BitVec 32) {t : Nat} (inside : t < s.depth)
include parts inside

theorem constant_wave (full : info.duty = 0 ∨ info.duty = s.depth) :
    (levelAt (cycleOf (withStart masks (differencesFrom 0 param)) mask) t).getLsbD info.io_num =
      xor (inverted s i) (info.duty != 0) := by
  have pin := proper.pin info (List.mem_of_getElem? here)
  obtain ⟨own, same, bits⟩ := undelayed_constant convert i pin proper.depth.1 full
  have none_ : ¬ (delayedChannel s convert i info).io_mask.getLsbD info.io_num = true := by
    rw [delayedChannel, phase_init_mask, same]
    simp
  have edges (t : Nat) := edges_bit convert proper here t
  have start := start_bits proper here convert
  rw [same, (channel_bits _ _).1, (channel_bits _ _).2, or_iff_left (not_and_of_not_left _ none_),
    or_iff_left (not_and_of_not_left _ none_), (bits _).1, (bits _).2, and_iff_right rfl, and_iff_right rfl] at start
  refine parts.wave (fun _ => xor (inverted s i) (info.duty != 0)) ?_ (fun t _ set clr sets clears => ?_) pin inside
  · refine start_levels pin ?_ ?_ mask
    · rw [parts.startSet, (edges 0).1, or_iff_left (not_and_of_not_left _ none_), start.1]
    · rw [parts.startClr, (edges 0).2, or_iff_left (not_and_of_not_left _ none_), start.2]
  · rw [(edges t).1] at sets
    rw [(edges t).2] at clears
    rw [Bool.eq_false_iff.mpr (mt sets.mp (not_and_of_not_left _ none_)),
      Bool.eq_false_iff.mpr (mt clears.mp (not_and_of_not_left _ none_)), Bool.false_or, Bool.not_false, Bool.and_true]

theorem pulse_wave (some_ : info.duty ≠ 0) (partly : info.duty ≠ s.depth)
    (distinct : (delayedChannel s convert i info).post_edg_time ≠ (delayedChannel s convert i info).neg_edg_time) :
    (levelAt (cycleOf (withStart masks (differencesFrom 0 param)) mask) t).getLsbD info.io_num =
      decide (Pulse (delayedChannel s convert i info).post_edg_time (delayedChannel s convert i info).neg_edg_time t) := by
  have pin := proper.pin info (List.mem_of_getElem? here)
  have bit : (delayedChannel s convert i info).io_mask.getLsbD info.io_num = true := by
    rw [delayedChannel, phase_init_mask, undelayed_pulse some_ partly]
    split <;> exact (pin_bit pin _).mpr rfl
  have edges (t : Nat) := edges_bit convert proper here t
  have start := start_bits proper here convert
  have none_ : ¬ (0 : BitVec 16).getLsbD info.io_num = true := by simp
  rw [undelayed_pulse some_ partly, or_iff_right none_, or_iff_right none_, (channel_bits _ _).1, (channel_bits _ _).2,
    and_iff_right bit, and_iff_right distinct, and_iff_right bit, and_iff_right distinct] at start
  refine parts.wave (fun t => decide (Pulse _ _ t)) ?_ (fun t later set clr sets clears => ?_) pin inside
  · refine start_levels pin ?_ ?_ mask
    · rw [parts.startSet, (edges 0).1, and_iff_right bit, start.1, decide_eq_true_iff, Pulse]
      omega
    · rw [parts.startClr, (edges 0).2, and_iff_right bit, start.2, decide_eq_false_iff_not, Pulse]
      omega
  · rw [(edges t).1, and_iff_right bit] at sets
    rw [(edges t).2, and_iff_right bit] at clears
    exact pulse_edge later sets clears

end

section
variable (proper : Proper s) (timely : Timely convert s)
include proper timely

theorem undelayed_inside {info : PwmInfo} (there : info ∈ s.pwm_info) (i : Nat) :
    (undelayed s convert i info).2.post_edg_time < s.depth ∧ (undelayed s convert i info).2.neg_edg_time < s.depth := by
  by_cases full : info.duty = 0 ∨ info.duty = s.depth
  · obtain ⟨masks, same, -⟩ := undelayed_constant convert i (proper.pin info there) proper.depth.1 full
    rw [same]
    exact ⟨proper.depth.1, proper.depth.1⟩
  · rw [not_or] at full
    have inside := (timely.inside info there full.1 full.2).2
    rw [undelayed_pulse full.1 full.2]
    split
    · exact ⟨inside, proper.depth.1⟩
    · exact ⟨proper.depth.1, inside⟩

theorem edges_moved {info : PwmInfo} (there : info ∈ s.pwm_info) (i : Nat) :
    ((delayedChannel s convert i info).post_edg_time : Int) =
        (s.timeDelay info.phase + (undelayed s convert i info).2.post_edg_time) % s.depth ∧
      ((delayedChannel s convert i info).neg_edg_time : Int) =
        (s.timeDelay info.phase + (undelayed s convert i info).2.neg_edg_time) % s.depth := by
  have some_ : (s.depth : Int) ≠ 0 := by
    have := proper.depth.1
    omega
  rw [delayedChannel_eq (proper.phase info there) (timely.delay info there) (undelayed_inside proper timely there i)]
  exact ⟨Int.toNat_of_nonneg (Int.emod_nonneg _ some_), Int.toNat_of_nonneg (Int.emod_nonneg _ some_)⟩

theorem edges_inside : ∀ e ∈ (allChannels s convert).flatMap PwmChannelParam.edges, e.edg_time < s.depth := by
  intro e member
  obtain ⟨channel, member', edge⟩ := List.mem_flatMap.mp member
  obtain ⟨i, info, at_, rfl⟩ := mem_mapIdx_iff.mp member'
  have moved := edges_moved proper timely (List.mem_of_getElem? at_) i
  have positive : (0 : Int) < s.depth := Int.natCast_pos.mpr proper.depth.1
  have post := Int.emod_lt_of_pos
    (s.timeDelay info.phase + (undelayed s convert i info).2.post_edg_time) positive
  have neg := Int.emod_lt_of_pos
    (s.timeDelay info.phase + (undelayed s convert i info).2.neg_edg_time) positive
  simp only [PwmChannelParam.edges, List.mem_cons, List.not_mem_nil, or_false] at edge
  rcases edge with rfl | rfl
  · exact Int.ofNat_lt.mp (moved.1.trans_lt post)
  · exact Int.ofNat_lt.mp (moved.2.trans_lt neg)

theorem pulse_active {i : Nat} {info : PwmInfo} (here : s.pwm_info[i]? = some info) (some_ : info.duty ≠ 0)
    (partly : info.duty ≠ s.depth) {t : Nat} (inside : t < s.depth) :
    (delayedChannel s convert i info).post_edg_time ≠ (delayedChannel s convert i info).neg_edg_time ∧
      decide (Pulse (delayedChannel s convert i info).post_edg_time (delayedChannel s convert i info).neg_edg_time t) =
        xor (inverted s i) (decide ((t - s.timeDelay info.phase) % s.depth < convert s.period info.duty s.depth)) := by
  have there := List.mem_of_getElem? here
  have moved := edges_moved proper timely there i
  obtain ⟨positive, short⟩ := timely.inside info there some_ partly
  rw [undelayed_pulse some_ partly] at moved
  cases invert : inverted s i with
  | false =>
      rw [invert] at moved
      simp only [Bool.false_eq_true, if_false, Int.natCast_zero, Int.add_zero] at moved
      obtain ⟨distinct, pulse⟩ := pulse_shifted inside (by omega) (by omega) moved.1 moved.2
      exact ⟨distinct, by rw [Bool.false_xor]; exact decide_eq_decide.mpr pulse⟩
  | true =>
      rw [invert] at moved
      simp only [if_true, Int.natCast_zero, Int.add_zero] at moved
      obtain ⟨distinct, pulse⟩ := pulse_shifted inside (by omega) (by omega) moved.2 moved.1
      refine ⟨distinct.symm, ?_⟩
      rw [Bool.true_xor, ← decide_not]
      exact decide_eq_decide.mpr ((pulse_swap distinct).trans (not_congr pulse))

theorem pins_active {masks : StartMasks} {param : List PwmParam}
    (parts : TableParts ((allChannels s convert).flatMap PwmChannelParam.edges) s.depth (startMasks s convert) masks param)
    (converts : Converts convert s) (mask : BitVec 32) {i : Nat} {info : PwmInfo} (here : s.pwm_info[i]? = some info) :
    ∃ high : Int, Near high (s.depth * info.duty) s.depth ∧ ∀ t < s.depth,
      (levelAt (cycleOf (withStart masks (differencesFrom 0 param)) mask) t).getLsbD info.io_num =
        xor (inverted s i) (decide ((t - s.timeDelay info.phase) % s.depth < high)) := by
  have there := List.mem_of_getElem? here
  have positive : (0 : Int) < s.depth := Int.natCast_pos.mpr proper.depth.1
  by_cases full : info.duty = 0 ∨ info.duty = s.depth
  · refine ⟨info.duty, ?_, fun t inside => ?_⟩
    · rw [near_iff, Int.mul_comm (info.duty : Int), sub_self]
      omega
    · rw [constant_wave proper here parts mask inside full]
      refine congrArg _ ?_
      rcases full with zero | full
      · rw [zero, Int.natCast_zero, decide_eq_false (Int.emod_nonneg _ positive.ne').not_gt]
        rfl
      · rw [full, decide_eq_true (Int.emod_lt_of_pos _ positive)]
        exact bne_iff_ne.mpr proper.depth.1.ne'
  · rw [not_or] at full
    refine ⟨convert s.period info.duty s.depth, ?_, fun t inside => ?_⟩
    · have near := converts info there
      rw [timely.period] at near
      rw [timely.period]
      exact near
    · obtain ⟨distinct, active⟩ := pulse_active proper timely here full.1 full.2 inside
      rw [pulse_wave proper here parts mask inside full.1 full.2 distinct, active]

end

end

/-- The table gives each pin its wave, from `phase / 180` of the period on. -/
theorem table_reproduces {s : PwmSettings} {convert : Nat → Nat → Nat → Nat} (proper : Proper s)
    (converts : Converts convert s) (timely : Timely convert s) (left : StartMasks) (mask : BitVec 32) :
    Reproduces 180 s (s.table convert left) mask := by
  obtain ⟨masks, param, same, parts⟩ := tableParts (edges_inside proper timely) left (startMasks s convert)
    proper.depth.1 proper.depth.2
  have table : s.table convert left = withStart masks (differencesFrom 0 param) := by rw [table_eq, same]
  refine ⟨?_, fun i info here => ?_⟩
  · rw [table, parts.ticks mask, timely.period]
  · have there := List.mem_of_getElem? here
    obtain ⟨high, near, active⟩ := pins_active proper timely parts converts mask here
    obtain ⟨start, -⟩ := timeDelay_near (proper.phase info there) proper.depth.1 (timely.delay info there)
    rw [table, timely.period]
    exact ⟨_, high, start, near, active⟩

theorem table_reproduces_two : Reproduces 180 ⟨1000, 2, [⟨500, 90, 12⟩, ⟨250, -90, 13⟩], 1000⟩
    (PwmSettings.table ⟨1000, 2, [⟨500, 90, 12⟩, ⟨250, -90, 13⟩], 1000⟩ (fun period duty depth => period * duty / depth)
      ⟨0, 0⟩) 0 :=
  table_reproduces
    ⟨by decide, by decide, by decide, by decide, by decide, by decide, by decide⟩
    (by unfold Converts Near; decide)
    ⟨rfl, by decide, by decide⟩ ⟨0, 0⟩ 0

/-- A phase of 90 is half of the period, and not a quarter. -/
theorem quarter_phase_halves : ¬ ∀ (s : PwmSettings) (convert : Nat → Nat → Nat → Nat), Proper s → Converts convert s →
    ∀ left mask, Reproduces 360 s (s.table convert left) mask := by
  intro claim
  have reproduces := claim ⟨360, 0, [⟨180, 90, 4⟩], 360⟩ (fun period duty depth => period * duty / depth)
    ⟨by decide, by decide, by decide, by decide, by decide, by decide, by decide⟩ (by unfold Converts Near; decide)
    ⟨0, 0⟩ 0
  obtain ⟨start, high, begins, lasts, level⟩ := reproduces.wave 0 ⟨180, 90, 4⟩ rfl
  have low : (levelAt (cycleOf (PwmSettings.table ⟨360, 0, [⟨180, 90, 4⟩], 360⟩
      (fun period duty depth => period * duty / depth) ⟨0, 0⟩) 0) 100).getLsbD 4 = false := by decide
  have high_ := (level 100 (by decide)).symm.trans low
  rw [near_iff] at begins lasts
  have quarter : 89 ≤ start ∧ start ≤ 91 := by
    simp only at begins
    omega
  have half : 179 ≤ high := by
    simp only at lasts
    omega
  have inverts : (0 : BitVec 16).getLsbD 0 = false := rfl
  simp only [inverts, Bool.false_xor, decide_eq_false_iff_not] at high_
  omega

end EspFirmware.Driver
