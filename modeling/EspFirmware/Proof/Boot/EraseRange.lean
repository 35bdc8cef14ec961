import Mathlib.Tactic.ByContra
import EspFirmware.Proof.Boot.OtaFlash
import EspFirmware.Proof.Boot.SpiFlash

/-!
Erasing a range sector by sector, where the count is tested after the first sector.
-/

namespace EspFirmware.Proof.Boot
open EspFirmware.SpiFlash EspFirmware.Spec EspFirmware.Lib EspFirmware.Lib.Prog
open EspFirmware.Boot (EspErr Flash EspPartition eraseSector)
open EspFirmware.Nvs (Byte Word)

theorem SectorsErased.append {num more sec : Nat} {flash d d' : Flash} (first : SectorsErased num sec flash d)
    (rest : SectorsErased more (sec + num) d d') : SectorsErased (num + more) sec flash d' := by
  intro x
  rw [rest x, first x, ← Nat.add_assoc]
  by_cases late : 4096 * (sec + num) ≤ x ∧ x < 4096 * (sec + num + more)
  · rw [if_pos late, if_pos (by omega)]
  · rw [if_neg late]
    by_cases early : 4096 * sec ≤ x ∧ x < 4096 * (sec + num)
    · rw [if_pos early, if_pos (by omega)]
    · rw [if_neg early, if_neg (by omega)]

theorem sectorsErased_one (sec : Nat) (flash : Flash) : SectorsErased 1 sec flash (eraseSector sec flash) :=
  .cons (sectorsErased_zero _ _)

section
variable {rom : SpiRom} {chipSize : Word} {made : SpiCalls} {flash : Flash}

theorem eraseSector_fails {sec : Word} (works : RomErases rom) (fails : EraseFails rom chipSize made.calls flash sec.toNat)
    {post : Outcome EspErr Unit → SpiCalls → Flash → Prop}
    (ends : ∀ made', made'.erased = made.erased → post (.err .flashOpFail) made' flash) :
    wp AnySpiCall (spiFlashEraseSector rom chipSize sec) post (fun _ => True) made flash := by
  unfold spiFlashEraseSector
  by_cases beyond : sec.toNat ≥ chipSize.toNat / Boot.SPI_FLASH_SEC_SIZE
  · rw [if_pos beyond]
    exact wp_throw _ (ends made rfl)
  · rw [if_neg beyond]
    have failed : (rom.eraseSector made.calls flash sec.toNat).2 = false := fails.resolve_left beyond
    refine wp_bind (wp_get (wp_bind (wp_read (wp_bind (wp_modify (wp_bind (wp_write trivial ?_ trivial)))))))
    have unsuccessful : ¬ (rom.eraseSector made.calls flash sec.toNat).2 = true := by
      rw [failed]
      decide
    dsimp only
    rw [if_neg unsuccessful, works.keeps _ _ _ failed]
    exact wp_throw _ (ends _ rfl)

theorem eraseSector_erases {sec : Word} (works : RomErases rom)
    (succeeds : ¬ EraseFails rom chipSize made.calls flash sec.toNat)
    {post : Outcome EspErr Unit → SpiCalls → Flash → Prop}
    (ends : ∀ made', made'.erased = made.erased ++ [sec.toNat] → made'.calls = made.calls + 1 →
      post (.ok ()) made' (eraseSector sec.toNat flash)) :
    wp AnySpiCall (spiFlashEraseSector rom chipSize sec) post (fun _ => True) made flash := by
  unfold EraseFails at succeeds
  simp only [not_or, Nat.not_le, Bool.not_eq_false] at succeeds
  obtain ⟨inside, success⟩ := succeeds
  unfold spiFlashEraseSector
  rw [if_neg (Nat.not_le.mpr inside)]
  refine wp_bind (wp_get (wp_bind (wp_read (wp_bind (wp_modify (wp_bind (wp_write trivial ?_ trivial)))))))
  dsimp only
  rw [if_pos success, works.erases _ _ _ success]
  exact wp_modify (ends _ rfl rfl)

structure LoopErases (rom : SpiRom) (chipSize : Word) (sec rounds : Nat) (made : SpiCalls) (flash : Flash)
    (o : Outcome EspErr Unit) (made' : SpiCalls) (flash' : Flash) (k : Nat) : Prop where
  erased : made'.erased = made.erased ++ List.range' sec k
  bytes : SectorsErased k sec flash flash'
  all : o = .ok () → k = rounds
  failed : o ≠ .ok () → EraseFails rom chipSize (made.calls + k) flash' (sec + k)
  none : k = 0 ↔ EraseFails rom chipSize made.calls flash sec

theorem loopErases_failed {sec rounds : Nat} {made' : SpiCalls} {e : EspErr}
    (fails : EraseFails rom chipSize made.calls flash sec) (same : made'.erased = made.erased) :
    LoopErases rom chipSize sec rounds made flash (.err e) made' flash 0 where
  erased := by
    rw [same]
    exact (List.append_nil _).symm
  bytes := sectorsErased_zero _ _
  all := by
    intro ok
    cases ok
  failed := fun _ => fails
  none := iff_of_true rfl fails

theorem chip_sectors (chipSize : Word) : chipSize.toNat / 4096 < 2 ^ 20 := by
  have chip := chipSize.isLt
  omega

theorem sector_next {sec : Word} {made : SpiCalls} {flash : Flash}
    (succeeds : ¬ EraseFails rom chipSize made.calls flash sec.toNat) : (sec + 1).toNat = sec.toNat + 1 := by
  have inside : sec.toNat < chipSize.toNat / 4096 := Nat.lt_of_not_le fun beyond => succeeds (Or.inl beyond)
  have small := chip_sectors chipSize
  rw [BitVec.toNat_add]
  exact Nat.mod_eq_of_lt (by change sec.toNat + 1 < 2 ^ 32; omega)

theorem count_down (rounds : Nat) (counted : rounds + 1 < 2 ^ 32) :
    BitVec.ofNat 32 (rounds + 1 + 1) - 1 = BitVec.ofNat 32 (rounds + 1) ∧ BitVec.ofNat 32 (rounds + 1) ≠ 0 := by
  constructor
  · rw [BitVec.ofNat_add]
    exact BitVec.add_sub_cancel _ _
  · intro zero
    have value := congrArg BitVec.toNat zero
    rw [BitVec.toNat_ofNat, Nat.mod_eq_of_lt counted] at value
    cases value

/-- The count is the number of rounds, where no round at first means `2 ^ 32` of them. -/
theorem eraseLoop_erases (works : RomErases rom) {rounds fuel : Nat} {sec : Word} (fits : rounds + 1 ≤ fuel)
    (counted : rounds + 1 ≤ 2 ^ 32) :
    wp AnySpiCall (eraseLoop rom chipSize fuel sec (BitVec.ofNat 32 (rounds + 1)))
      (fun o made' flash' => o ≠ .fault ∧ ∃ k ≤ rounds + 1,
        LoopErases rom chipSize sec.toNat (rounds + 1) made flash o made' flash' k)
      (fun _ => True) made flash := by
  induction rounds generalizing fuel sec made flash with
  | zero =>
      cases fuel with
      | zero => omega
      | succ fuel =>
          rw [eraseLoop]
          apply wp_bind
          by_cases fails : EraseFails rom chipSize made.calls flash sec.toNat
          · apply eraseSector_fails works fails
            intro made' same
            exact ⟨by decide, 0, Nat.zero_le _, loopErases_failed fails same⟩
          · apply eraseSector_erases works fails
            intro made' logged _
            have last : ¬ BitVec.ofNat 32 (0 + 1) - 1 ≠ (0 : Word) := by decide
            dsimp only
            rw [if_neg last]
            exact wp_pure () ⟨by decide, 1, Nat.le_refl _, logged, sectorsErased_one _ _, fun _ => rfl,
              fun other => absurd rfl other, iff_of_false Nat.one_ne_zero fails⟩
  | succ rounds ih =>
      cases fuel with
      | zero => omega
      | succ fuel =>
          rw [eraseLoop]
          apply wp_bind
          by_cases fails : EraseFails rom chipSize made.calls flash sec.toNat
          · apply eraseSector_fails works fails
            intro made' same
            exact ⟨by decide, 0, Nat.zero_le _, loopErases_failed fails same⟩
          · apply eraseSector_erases works fails
            intro made' logged counts
            obtain ⟨down, more⟩ := count_down rounds (by omega)
            dsimp only
            rw [down, if_pos more]
            refine wp_mono (ih (by omega) (by omega)) ?_ fun _ stop => stop
            rintro o made'' flash'' ⟨returns, k, bound, later⟩
            rw [sector_next fails] at later
            refine ⟨returns, 1 + k, by omega, ?_, (sectorsErased_one _ _).append later.bytes, ?_, ?_,
              iff_of_false (by omega) fails⟩
            · rw [later.erased, logged, List.append_assoc, Nat.add_comm 1 k, List.range'_succ]
              rfl
            · intro ok
              rw [later.all ok]
              omega
            · intro other
              have next := later.failed other
              rw [counts, Nat.add_assoc, Nat.add_assoc] at next
              exact next

theorem sector_number (a : Word) : (a / BitVec.ofNat 32 Boot.SPI_FLASH_SEC_SIZE).toNat = a.toNat / 4096 := by
  rw [BitVec.toNat_udiv]
  rfl

theorem rounds_of_size {size : Word} (whole : size.toNat % 4096 = 0) :
    ∃ rounds, rounds + 1 ≤ 2 ^ 32 ∧
      size / BitVec.ofNat 32 Boot.SPI_FLASH_SEC_SIZE = BitVec.ofNat 32 (rounds + 1) ∧
      (size ≠ 0 → rounds + 1 = size.toNat / 4096) ∧ (size = 0 → rounds + 1 = 2 ^ 32) := by
  have bound := size.isLt
  by_cases empty : size = 0
  · subst empty
    exact ⟨2 ^ 32 - 1, by decide, by decide, fun nonempty => absurd rfl nonempty, fun _ => rfl⟩
  · have positive : size.toNat ≠ 0 := fun zero => empty (BitVec.eq_of_toNat_eq zero)
    have sum : size.toNat / 4096 - 1 + 1 = size.toNat / 4096 := by omega
    refine ⟨size.toNat / 4096 - 1, by omega, ?_, fun _ => sum, fun zero => absurd zero empty⟩
    rw [sum, ← sector_number, BitVec.ofNat_toNat, BitVec.setWidth_eq]

variable (chipSize made flash) in
theorem eraseRange_erases (works : RomErases rom) {start size : Word} (whole : WholeSectors start.toNat size.toNat) :
    ∃ rounds, 0 < rounds ∧ (size ≠ 0 → rounds = size.toNat / 4096) ∧
      wp AnySpiCall (spiFlashEraseRange rom chipSize start size)
        (fun o made' flash' => o ≠ .fault ∧ ∃ k ≤ rounds,
          LoopErases rom chipSize (start.toNat / 4096) rounds made flash o made' flash' k)
        (fun _ => True) made flash := by
  obtain ⟨rounds, counted, num, count, _⟩ := rounds_of_size whole.2
  refine ⟨rounds + 1, Nat.succ_pos rounds, count, ?_⟩
  have aligned : ¬ (start.toNat % Boot.SPI_FLASH_SEC_SIZE ≠ 0 ∨ size.toNat % Boot.SPI_FLASH_SEC_SIZE ≠ 0) := by
    simp only [not_or, not_not]
    exact whole
  unfold spiFlashEraseRange
  rw [if_neg aligned, num, ← sector_number]
  exact eraseLoop_erases works counted counted

theorem erasesRange_of_refused {valid : Prop} {start size : Nat} {p : SpiProg Unit} {e : EspErr} (invalid : ¬ valid)
    (refused : p made flash = ⟨.err e, made, flash, []⟩) :
    ErasesRange rom chipSize valid start size made flash (p made flash) := by
  rw [refused]
  refine ⟨?_, 0, Nat.zero_le _, ?_, ?_, ?_, fun _ => Or.inl invalid, fun _ => rfl⟩
  · intro fault
    cases fault
  · exact (List.append_nil _).symm
  · intro x
    exact (if_neg fun inside => absurd (Nat.lt_of_le_of_lt inside.1 inside.2) (Nat.lt_irrefl _)).symm
  · intro ok
    cases ok

section
variable {rounds k : Nat} {ran : Ran SpiCalls Flash EspErr Unit}

theorem erasesRange_of_valid {valid : Prop} {start size : Nat} (returns : ran.outcome ≠ .fault) (bound : k ≤ rounds)
    (loop : LoopErases rom chipSize (start / 4096) rounds made flash ran.outcome ran.volatile ran.durable k)
    (holds : valid) (count : rounds = size / 4096) : ErasesRange rom chipSize valid start size made flash ran := by
  subst count
  exact ⟨returns, k, bound, loop.erased, loop.bytes, fun ok => ⟨holds, loop.all ok⟩,
    fun other => Or.inr (loop.failed other), fun invalid => absurd holds invalid⟩

theorem erasesRange_of_fails {valid : Prop} {start sec size : Nat} (returns : ran.outcome ≠ .fault) (some : 0 < rounds)
    (loop : LoopErases rom chipSize sec rounds made flash ran.outcome ran.volatile ran.durable k)
    (fails : EraseFails rom chipSize made.calls flash sec)
    (there : valid → sec = start / 4096 ∨ chipSize.toNat / 4096 ≤ start / 4096) :
    ErasesRange rom chipSize valid start size made flash ran := by
  have nothing := loop.none.mpr fails
  subst nothing
  refine ⟨returns, 0, Nat.zero_le _, loop.erased, ?_, ?_, ?_, fun _ => rfl⟩
  · intro x
    rw [loop.bytes x, if_neg (by omega),
      if_neg fun inside => absurd (Nat.lt_of_le_of_lt inside.1 inside.2) (Nat.lt_irrefl _)]
  · intro ok
    have all := loop.all ok
    omega
  · intro other
    by_cases holds : valid
    · right
      rcases there holds with rfl | beyond
      · exact loop.failed other
      · exact Or.inl beyond
    · exact Or.inl holds

theorem started_of_erasesRange {valid : Prop} {start sec size : Nat}
    (range : ErasesRange rom chipSize valid start size made flash ran)
    (loop : LoopErases rom chipSize sec rounds made flash ran.outcome ran.volatile ran.durable k) (some : 0 < k) :
    valid ∧ 0 < size / 4096 ∧ start / 4096 = sec := by
  obtain ⟨k', bound, first⟩ := range.first
  have same : List.range' (start / 4096) k' = List.range' sec k :=
    List.append_cancel_left (first.erased.symm.trans loop.erased)
  have length := congrArg List.length same
  rw [List.length_range', List.length_range'] at length
  subst length
  refine ⟨?_, Nat.lt_of_lt_of_le some bound, ?_⟩
  · by_contra invalid
    have nothing := first.nothing invalid
    omega
  · cases k' with
    | zero => cases some
    | succ n =>
        rw [List.range'_succ, List.range'_succ] at same
        exact (List.cons.inj same).1

end

theorem eraseRange_exact_iff (works : RomErases rom) (start size : Word) :
    ErasesRange rom chipSize (WholeSectors start.toNat size.toNat) start.toNat size.toNat made flash
        (spiFlashEraseRange rom chipSize start size made flash) ↔
      ErasesOnlyRange rom chipSize start size made flash := by
  by_cases whole : WholeSectors start.toNat size.toNat
  · obtain ⟨rounds, some, count, run⟩ := eraseRange_erases chipSize made flash works whole
    obtain ⟨returns, k, bound, loop⟩ := run.ends
    constructor
    · intro range
      by_cases fails : EraseFails rom chipSize made.calls flash (start.toNat / 4096)
      · exact Or.inr (Or.inr fails)
      · have erased : 0 < k := Nat.pos_of_ne_zero fun none => fails (loop.none.mp none)
        obtain ⟨_, sectors, _⟩ := started_of_erasesRange range loop erased
        left
        intro empty
        subst empty
        exact absurd sectors (by decide)
    · intro only
      rcases only with nonempty | refused | fails
      · exact erasesRange_of_valid returns bound loop whole (count nonempty)
      · exact absurd whole refused
      · exact erasesRange_of_fails returns some loop fails fun _ => Or.inl rfl
  · refine iff_of_true ?_ (Or.inr (Or.inl whole))
    refine erasesRange_of_refused whole (e := .flashOpFail) ?_
    unfold spiFlashEraseRange
    rw [if_pos (by unfold WholeSectors at whole; omega)]
    rfl

theorem passes_of_inPartition {partition : EspPartition} {offset size : Word}
    (inside : InPartition partition offset size) : PassesBounds partition offset size := by
  unfold InPartition at inside
  have bound := partition.size.isLt
  constructor
  · exact BitVec.le_def.mpr (by omega)
  · rw [BitVec.le_def, BitVec.toNat_add, Nat.mod_eq_of_lt (by omega)]
    exact inside

theorem partitionErase_of_passes {partition : EspPartition} {startAddr size : Word}
    (passes : PassesBounds partition startAddr size) (whole : WholeSectors startAddr.toNat size.toNat) :
    espPartitionEraseRange rom chipSize partition startAddr size =
      spiFlashEraseRange rom chipSize (partition.address + startAddr) size := by
  unfold espPartitionEraseRange
  rw [if_neg (BitVec.not_lt.mpr passes.1), if_neg (BitVec.not_lt.mpr passes.2), if_neg (not_not_intro whole.2),
    if_neg (not_not_intro whole.1)]

theorem partitionErase_of_refused {partition : EspPartition} {startAddr size : Word}
    (refused : ¬ (PassesBounds partition startAddr size ∧ WholeSectors startAddr.toNat size.toNat)) :
    ∃ e, espPartitionEraseRange rom chipSize partition startAddr size made flash = ⟨.err e, made, flash, []⟩ := by
  unfold espPartitionEraseRange
  by_cases offset : startAddr > partition.size
  · rw [if_pos offset]
    exact ⟨_, rfl⟩
  · rw [if_neg offset]
    by_cases sum : startAddr + size > partition.size
    · rw [if_pos sum]
      exact ⟨_, rfl⟩
    · rw [if_neg sum]
      have passes : PassesBounds partition startAddr size := ⟨BitVec.not_lt.mp offset, BitVec.not_lt.mp sum⟩
      by_cases sizeWhole : size.toNat % Boot.SPI_FLASH_SEC_SIZE ≠ 0
      · rw [if_pos sizeWhole]
        exact ⟨_, rfl⟩
      · rw [if_neg sizeWhole]
        have startPartial : startAddr.toNat % Boot.SPI_FLASH_SEC_SIZE ≠ 0 := fun start =>
          refused ⟨passes, start, Decidable.not_not.mp sizeWhole⟩
        rw [if_pos startPartial]
        exact ⟨_, rfl⟩

theorem partitionErase_exact_iff (works : RomErases rom) (partition : EspPartition) (startAddr size : Word) :
    ErasesRange rom chipSize (ErasableRange partition startAddr size)
        (partition.address.toNat + startAddr.toNat) size.toNat made flash
        (espPartitionEraseRange rom chipSize partition startAddr size made flash) ↔
      ErasesOnlyInPartition rom chipSize partition startAddr size made flash := by
  by_cases accepted : PassesBounds partition startAddr size ∧ WholeSectors startAddr.toNat size.toNat
  · obtain ⟨passes, whole⟩ := accepted
    rw [partitionErase_of_passes passes whole]
    have sum : (partition.address + startAddr).toNat = (partition.address.toNat + startAddr.toNat) % 2 ^ 32 :=
      BitVec.toNat_add _ _
    have startWhole : startAddr.toNat % 4096 = 0 := whole.1
    by_cases aligned : partition.address.toNat % 4096 = 0
    · have whole' : WholeSectors (partition.address + startAddr).toNat size.toNat :=
        ⟨by change (partition.address + startAddr).toNat % 4096 = 0; omega, whole.2⟩
      obtain ⟨rounds, some, count, run⟩ := eraseRange_erases chipSize made flash works whole'
      obtain ⟨returns, k, bound, loop⟩ := run.ends
      have chip := chip_sectors chipSize
      constructor
      · intro range
        by_cases fails : EraseFails rom chipSize made.calls flash ((partition.address + startAddr).toNat / 4096)
        · exact Or.inr (Or.inr (Or.inr (Or.inr fails)))
        · have erased : 0 < k := Nat.pos_of_ne_zero fun none => fails (loop.none.mp none)
          have onChip : (partition.address + startAddr).toNat / 4096 < chipSize.toNat / 4096 :=
            Nat.lt_of_not_le fun beyond => fails (Or.inl beyond)
          obtain ⟨erasable, sectors, first⟩ := started_of_erasesRange range loop erased
          refine Or.inl ⟨?_, erasable.1, ?_⟩
          · intro empty
            subst empty
            exact absurd sectors (by decide)
          · change partition.address.toNat + startAddr.toNat < 2 ^ 32
            omega
      · intro only
        rcases only with ⟨nonempty, inside, addressed⟩ | refused | partly | odd | fails
        · have exact_ : (partition.address + startAddr).toNat = partition.address.toNat + startAddr.toNat :=
            sum.trans (Nat.mod_eq_of_lt addressed)
          rw [exact_] at loop
          exact erasesRange_of_valid returns bound loop ⟨inside, whole, aligned⟩ (count nonempty)
        · exact absurd passes refused
        · exact absurd whole partly
        · exact absurd aligned odd
        · refine erasesRange_of_fails returns some loop fails ?_
          intro _
          by_cases addressed : partition.address.toNat + startAddr.toNat < 2 ^ 32
          · left
            rw [sum, Nat.mod_eq_of_lt addressed]
          · right
            omega
    · refine iff_of_true ?_ (Or.inr (Or.inr (Or.inr (Or.inl aligned))))
      refine erasesRange_of_refused (fun erasable => aligned erasable.2.2) (e := .flashOpFail) ?_
      unfold spiFlashEraseRange
      have odd : (partition.address + startAddr).toNat % Boot.SPI_FLASH_SEC_SIZE ≠ 0 := by
        change (partition.address + startAddr).toNat % 4096 ≠ 0
        omega
      rw [if_pos (Or.inl odd)]
      rfl
  · obtain ⟨e, refused⟩ : ∃ e, espPartitionEraseRange rom chipSize partition startAddr size made flash =
        ⟨.err e, made, flash, []⟩ := partitionErase_of_refused accepted
    have invalid : ¬ ErasableRange partition startAddr size := fun erasable =>
      accepted ⟨passes_of_inPartition erasable.1, erasable.2.1⟩
    refine iff_of_true (erasesRange_of_refused invalid refused) ?_
    by_cases passes : PassesBounds partition startAddr size
    · exact Or.inr (Or.inr (Or.inl fun whole => accepted ⟨passes, whole⟩))
    · exact Or.inr (Or.inl passes)

/-- Erasing a range erases exactly the range, for the flash and for a partition, under these conditions and no
others. -/
theorem erases_exactly_range_iff (works : RomErases rom) (chipSize : Word) (made : SpiCalls) (flash : Flash) :
    (∀ start size : Word,
      ErasesRange rom chipSize (WholeSectors start.toNat size.toNat) start.toNat size.toNat made flash
          (spiFlashEraseRange rom chipSize start size made flash) ↔
        ErasesOnlyRange rom chipSize start size made flash) ∧
      ∀ (partition : EspPartition) (startAddr size : Word),
        ErasesRange rom chipSize (ErasableRange partition startAddr size)
            (partition.address.toNat + startAddr.toNat) size.toNat made flash
            (espPartitionEraseRange rom chipSize partition startAddr size made flash) ↔
          ErasesOnlyInPartition rom chipSize partition startAddr size made flash :=
  ⟨eraseRange_exact_iff works, partitionErase_exact_iff works⟩

end

theorem exactRom_erases : RomErases exactRom where
  erases := fun _ _ _ _ => rfl
  keeps := by
    intro calls flash sec failed
    cases failed

theorem exactRom_erase_succeeds {sec calls : Nat} {flash : Flash} (onChip : sec < 0x100) :
    ¬ EraseFails exactRom 0x100000 calls flash sec := by
  intro fails
  rcases fails with beyond | failed
  · exact absurd onChip (Nat.not_lt.mpr beyond)
  · cases failed

theorem erases_exactly_range_exact :
    (∀ start size : Word,
      ErasesRange exactRom 0x100000 (WholeSectors start.toNat size.toNat) start.toNat size.toNat ⟨0, [], [], []⟩
          (fun _ => 0) (spiFlashEraseRange exactRom 0x100000 start size ⟨0, [], [], []⟩ fun _ => 0) ↔
        ErasesOnlyRange exactRom 0x100000 start size ⟨0, [], [], []⟩ fun _ => 0) ∧
      ∀ (partition : EspPartition) (startAddr size : Word),
        ErasesRange exactRom 0x100000 (ErasableRange partition startAddr size)
            (partition.address.toNat + startAddr.toNat) size.toNat ⟨0, [], [], []⟩ (fun _ => 0)
            (espPartitionEraseRange exactRom 0x100000 partition startAddr size ⟨0, [], [], []⟩ fun _ => 0) ↔
          ErasesOnlyInPartition exactRom 0x100000 partition startAddr size ⟨0, [], [], []⟩ fun _ => 0 :=
  erases_exactly_range_iff exactRom_erases 0x100000 ⟨0, [], [], []⟩ fun _ => 0

/-- An empty range at `0x10000` is erased as all that is behind it. -/
theorem empty_range_erases :
    ¬ ErasesRange exactRom 0x100000 (WholeSectors 0x10000 0) 0x10000 0 ⟨0, [], [], []⟩ (fun _ => 0)
      (spiFlashEraseRange exactRom 0x100000 0x10000 0 ⟨0, [], [], []⟩ fun _ => 0) := by
  intro range
  have only : ErasesOnlyRange exactRom 0x100000 0x10000 0 ⟨0, [], [], []⟩ fun _ => 0 :=
    (eraseRange_exact_iff exactRom_erases 0x10000 0).mp range
  rcases only with nonempty | refused | fails
  · exact nonempty rfl
  · exact refused (by decide)
  · exact exactRom_erase_succeeds (by decide) fails

end EspFirmware.Proof.Boot
