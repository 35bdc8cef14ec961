import EspFirmware.Proof.Boot.OtaFlash
import EspFirmware.Proof.Boot.SpiFlash
import EspFirmware.Spec.SpiFlash

/-!
A copy of sectors, one after the other, with the failures of its flash operations.
-/

namespace EspFirmware.Proof.Boot
open EspFirmware.SectorCopy EspFirmware.Spec EspFirmware.Lib EspFirmware.Lib.Prog
open EspFirmware.SpiFlash (programBytes)
open EspFirmware.Boot (Flash eraseSector SPI_FLASH_SEC_SIZE)
open EspFirmware.Nvs (Byte Word)

abbrev AnyOp : Flash → List Flash → Prop := fun _ _ => True

abbrev copyWp {α : Type} (p : CopyProg α) (post : Outcome Unit α → Issued → Flash → Prop) (issued : Issued)
    (flash : Flash) : Prop :=
  wp AnyOp p post (fun _ => True) issued flash

section
variable {chip : FaultyFlash} {issued : Issued} {flash : Flash} {addr n : Nat}

theorem readData_ends {post : Outcome Unit (Int × List Byte) → Issued → Flash → Prop} (aligned : addr % 4 = 0)
    (whole : n % 4 = 0)
    (fails : chip.fails (.readData addr n) = true →
      post (.ok (1, chip.delivers (.readData addr n) flash)) (issued ++ [(.readData addr n, false)]) flash)
    (succeeds : chip.fails (.readData addr n) = false →
      post (.ok (0, flash.load addr n)) (issued ++ [(.readData addr n, true)]) flash) :
    copyWp (spiFlashReadData chip addr n) post issued flash := by
  unfold spiFlashReadData spiReadData
  rw [if_neg (by omega)]
  refine wp_bind (wp_read (wp_bind (wp_modify ?_)))
  dsimp only
  cases failed : chip.fails (.readData addr n) with
  | true => exact wp_pure _ (fails failed)
  | false => exact wp_pure _ (succeeds failed)

theorem writeData_ends {post : Outcome Unit Int → Issued → Flash → Prop} {buf : List Byte} (aligned : addr % 4 = 0)
    (whole : buf.length % 4 = 0)
    (fails : chip.fails (.writeData addr buf.length) = true → ∀ flash',
      post (.ok 1) (issued ++ [(.writeData addr buf.length, false)]) flash')
    (succeeds : chip.fails (.writeData addr buf.length) = false →
      post (.ok 0) (issued ++ [(.writeData addr buf.length, true)]) (programBytes addr buf flash)) :
    copyWp (spiFlashWriteData chip addr buf) post issued flash := by
  unfold spiFlashWriteData spiWrite
  rw [if_neg (by omega)]
  refine wp_bind (wp_modify ?_)
  dsimp only
  cases failed : chip.fails (.writeData addr buf.length) with
  | true => exact wp_bind (wp_write trivial (wp_pure _ (fails failed _)) trivial)
  | false => exact wp_bind (wp_write trivial (wp_pure _ (succeeds failed)) trivial)

theorem erase_ends {post : Outcome Unit Int → Issued → Flash → Prop}
    (fails : chip.fails (.eraseSector (addr / 4096)) = true → ∀ flash',
      post (.ok 1) (issued ++ [(.eraseSector (addr / 4096), false)]) flash')
    (succeeds : chip.fails (.eraseSector (addr / 4096)) = false →
      post (.ok 0) (issued ++ [(.eraseSector (addr / 4096), true)]) (eraseSector (addr / 4096) flash)) :
    copyWp (spiFlashErase chip addr) post issued flash := by
  unfold spiFlashErase spiEraseSector
  change copyWp (Prog.modify (fun issued => issued ++
    [(FlashOp.eraseSector (addr / 4096), !chip.fails (.eraseSector (addr / 4096)))]) >>= fun _ => _) post issued flash
  refine wp_bind (wp_modify ?_)
  dsimp only
  cases failed : chip.fails (.eraseSector (addr / 4096)) with
  | true => exact wp_bind (wp_write trivial (wp_pure _ (fails failed _)) trivial)
  | false => exact wp_bind (wp_write trivial (wp_pure _ (succeeds failed)) trivial)

theorem program_erased {bytes : List Byte} (aligned : addr % 4096 = 0) (length : bytes.length = 4096) :
    programBytes addr bytes (eraseSector (addr / 4096) flash) = Lib.Memory.store flash addr bytes := by
  funext x
  have start : addr / 4096 * 4096 = addr := by omega
  rw [programBytes, Lib.Memory.store, length]
  by_cases inside : addr ≤ x ∧ x < addr + 4096
  · rw [if_pos inside, if_pos inside, eraseSector_inside (by omega) (by omega)]
    exact BitVec.allOnes_and
  · rw [if_neg inside, if_neg inside, eraseSector_outside (by omega)]

structure SafeEnds (eraseFails writeFails checkFails : Prop) (addr : Nat) (buf : List Byte) (issued : Issued)
    (flash : Flash) (o : Outcome Unit Int) (issued' : Issued) (flash' : Flash) : Prop where
  returns : ∃ ret, o = .ok ret
  keeps : ∀ e ∈ issued, e ∈ issued'
  zero : o = .ok 0 ↔ ¬ eraseFails ∧ (writeFails ∨ ¬ checkFails)
  failed : o = .ok 0 → writeFails → ∃ e ∈ issued', e.2 = false
  done : o = .ok 0 → ¬ writeFails →
    (∀ e ∈ issued', e ∈ issued ∨ e.2 = true) ∧ flash' = Lib.Memory.store flash addr buf

theorem safeEnds_refused {eraseFails writeFails checkFails : Prop} {buf : List Byte} {issued' : Issued}
    {flash' : Flash} (keeps : ∀ e ∈ issued, e ∈ issued') (bad : eraseFails ∨ (¬ writeFails ∧ checkFails)) :
    SafeEnds eraseFails writeFails checkFails addr buf issued flash (.ok (-1)) issued' flash' where
  returns := ⟨-1, rfl⟩
  keeps := keeps
  zero := by
    constructor
    · intro ok
      cases ok
    · rintro ⟨erased, written⟩
      rcases bad with fails | ⟨notWritten, fails⟩
      · exact absurd fails erased
      · rcases written with failed | checked
        · exact absurd failed notWritten
        · exact absurd fails checked
  failed := by
    intro ok
    cases ok
  done := by
    intro ok
    cases ok

theorem writeDataSafe_ends {buf : List Byte} (aligned : addr % 4096 = 0) (length : buf.length = 4096) :
    copyWp (spiFlashWriteDataSafe chip addr buf)
      (SafeEnds (chip.fails (.eraseSector (addr / 4096)) = true) (chip.fails (.writeData addr 4096) = true)
        (chip.fails (.readData addr 4096) = true) addr buf issued flash) issued flash := by
  have keeps (a b c : FlashOp × Bool) : ∀ e ∈ issued, e ∈ issued ++ [a] ++ [b] ++ [c] := by
    intro e old
    simp only [List.mem_append]
    exact Or.inl (Or.inl (Or.inl old))
  unfold spiFlashWriteDataSafe
  refine wp_bind (erase_ends ?_ ?_)
  · intro fails flash'
    dsimp only
    rw [if_pos (by decide)]
    exact wp_pure _ (safeEnds_refused (fun e old => List.mem_append_left _ old) (Or.inl fails))
  · intro erased
    dsimp only
    rw [if_neg (by decide)]
    have notErased : ¬ chip.fails (.eraseSector (addr / 4096)) = true := Bool.eq_false_iff.mp erased
    refine wp_bind (writeData_ends (by omega) (by omega) ?_ ?_)
    · -- A failing write is reported as success.
      intro fails flash'
      rw [length] at fails
      dsimp only
      rw [if_pos (by decide)]
      refine wp_pure _ ⟨⟨0, rfl⟩, ?_, iff_of_true rfl ⟨notErased, Or.inl fails⟩, ?_, fun _ written => absurd fails written⟩
      · intro e old
        exact List.mem_append_left _ (List.mem_append_left _ old)
      · intro _ _
        exact ⟨_, List.mem_append_right _ (List.mem_singleton_self _), rfl⟩
    · intro written
      rw [length] at written ⊢
      dsimp only
      rw [if_neg (by decide), program_erased aligned length]
      have notWritten : ¬ chip.fails (.writeData addr 4096) = true := Bool.eq_false_iff.mp written
      refine wp_bind (readData_ends (by omega) (by omega) ?_ ?_)
      · intro fails
        dsimp only
        rw [if_pos (by decide)]
        exact wp_pure _ (safeEnds_refused (keeps _ _ _) (Or.inr ⟨notWritten, fails⟩))
      · intro checked
        dsimp only
        have same : Lib.Memory.load (Lib.Memory.store flash addr buf) addr 4096 = buf := by
          rw [← length]
          exact Lib.Memory.load_store flash addr buf
        rw [if_neg (by decide), same, if_neg (not_not_intro rfl)]
        have notChecked : ¬ chip.fails (.readData addr 4096) = true := Bool.eq_false_iff.mp checked
        refine wp_pure _ ⟨⟨0, rfl⟩, keeps _ _ _, iff_of_true rfl ⟨notErased, Or.inr notChecked⟩,
          fun _ fails => absurd fails notWritten, fun _ _ => ⟨?_, rfl⟩⟩
        intro e member
        simp only [List.mem_append, List.mem_singleton] at member
        rcases member with ((old | rfl) | rfl) | rfl
        · exact Or.inl old
        · exact Or.inr rfl
        · exact Or.inr rfl
        · exact Or.inr rfl

end

structure CopyEnds (chip : FaultyFlash) (dest src : Word) (k n : Nat) (issued : Issued) (flash : Flash)
    (o : Outcome Unit Int) (issued' : Issued) (flash' : Flash) : Prop where
  returns : ∃ ret, o = .ok ret
  keeps : ∀ e ∈ issued, e ∈ issued'
  zero : o = .ok 0 ↔ ∀ j, k ≤ j → j < n → ¬ OtherFails chip dest src j
  failed : o = .ok 0 → ∀ j, k ≤ j → j < n → WriteFails chip dest j → ∃ e ∈ issued', e.2 = false
  done : o = .ok 0 → (∀ j, k ≤ j → j < n → ¬ WriteFails chip dest j) →
    (∀ e ∈ issued', e ∈ issued ∨ e.2 = true) ∧
      ∀ x, flash' x = if dest.toNat + 4096 * k ≤ x ∧ x < dest.toNat + 4096 * n then
        flash (src.toNat + (x - dest.toNat)) else flash x

section
variable {chip : FaultyFlash} {dest src totalSize : Word} {issued : Issued} {flash : Flash} {k n : Nat}

theorem copyEnds_refused {issued' : Issued} {flash' : Flash} (more : k < n) (keeps : ∀ e ∈ issued, e ∈ issued')
    (fails : OtherFails chip dest src k) : CopyEnds chip dest src k n issued flash (.ok (-1)) issued' flash' where
  returns := ⟨-1, rfl⟩
  keeps := keeps
  zero := by
    constructor
    · intro ok
      cases ok
    · intro none
      exact absurd fails (none k (Nat.le_refl k) more)
  failed := by
    intro ok
    cases ok
  done := by
    intro ok
    cases ok

theorem copyEnds_next {cache : List Byte} {issued' issued'' : Issued} {flash' flash'' : Flash} {o : Outcome Unit Int}
    (more : k < n) (cached : cache = flash.load (src.toNat + 4096 * k) 4096)
    (apart : dest.toNat + 4096 * n ≤ src.toNat ∨ src.toNat + 4096 * n ≤ dest.toNat)
    (fine : ¬ OtherFails chip dest src k) (keeps : ∀ e ∈ issued, e ∈ issued')
    (failed : WriteFails chip dest k → ∃ e ∈ issued', e.2 = false)
    (done : ¬ WriteFails chip dest k → (∀ e ∈ issued', e ∈ issued ∨ e.2 = true) ∧
      flash' = Lib.Memory.store flash (dest.toNat + 4096 * k) cache)
    (later : CopyEnds chip dest src (k + 1) n issued' flash' o issued'' flash'') :
    CopyEnds chip dest src k n issued flash o issued'' flash'' where
  returns := later.returns
  keeps := fun e old => later.keeps e (keeps e old)
  zero := by
    rw [later.zero]
    constructor
    · intro rest j low high
      rcases Nat.eq_or_lt_of_le low with rfl | above
      · exact fine
      · exact rest j above high
    · intro all j low high
      exact all j (Nat.le_of_succ_le low) high
  failed := by
    intro ok j low high fails
    rcases Nat.eq_or_lt_of_le low with rfl | above
    · obtain ⟨e, member, entry⟩ := failed fails
      exact ⟨e, later.keeps e member, entry⟩
    · exact later.failed ok j above high fails
  done := by
    intro ok none
    obtain ⟨logged, stored⟩ := done (none k (Nat.le_refl k) more)
    obtain ⟨logged', copied⟩ := later.done ok fun j low high => none j (Nat.le_of_succ_le low) high
    refine ⟨?_, ?_⟩
    · intro e member
      rcases logged' e member with early | success
      · exact logged e early
      · exact Or.inr success
    · intro x
      have length : cache.length = 4096 := by
        rw [cached]
        exact Lib.Memory.length_load _ _ _
      rw [copied x, stored]
      by_cases here : dest.toNat + 4096 * k ≤ x ∧ x < dest.toNat + 4096 * k + 4096
      · rw [if_neg (by omega), if_pos (by omega), Lib.Memory.store, length, if_pos here, cached, Lib.Memory.load,
          List.getD_eq_getElem?_getD, List.getElem?_map, List.getElem?_range (by omega), Option.map_some,
          Option.getD_some]
        congr 1
        omega
      · by_cases behind : dest.toNat + 4096 * (k + 1) ≤ x ∧ x < dest.toNat + 4096 * n
        · rw [if_pos behind, if_pos (by omega)]
          exact Lib.Memory.store_other flash (by omega)
        · rw [if_neg behind, if_neg (by omega)]
          exact Lib.Memory.store_other flash (by omega)

theorem copyRanges_sectors (ranges : CopyRanges dest src totalSize) :
    (dest.toNat + 4096 * sectorsOf totalSize ≤ src.toNat ∨ src.toNat + 4096 * sectorsOf totalSize ≤ dest.toNat) ∧
      dest.toNat + 4096 * sectorsOf totalSize ≤ 2 ^ 32 ∧ src.toNat + 4096 * sectorsOf totalSize ≤ 2 ^ 32 ∧
      totalSize.toNat ≤ 4096 * sectorsOf totalSize := by
  obtain ⟨destSector, srcSector, destEnds, srcEnds, disjoint⟩ := ranges
  change dest.toNat % 4096 = 0 at destSector
  change src.toNat % 4096 = 0 at srcSector
  have sectors : sectorsOf totalSize = (totalSize.toNat + 4095) / 4096 := rfl
  rw [sectors]
  refine ⟨?_, ?_, ?_, ?_⟩
  all_goals omega

theorem offset_of_sector (small : 4096 * k < 2 ^ 32) : (BitVec.ofNat 32 (4096 * k)).toNat = 4096 * k := by
  rw [BitVec.toNat_ofNat]
  exact Nat.mod_eq_of_lt small

theorem copyLoop_ends (ranges : CopyRanges dest src totalSize) {rounds fuel : Nat} (fits : rounds < fuel)
    (left : k + rounds = sectorsOf totalSize) :
    copyWp (copyLoop chip dest src totalSize fuel (BitVec.ofNat 32 (4096 * k)))
      (CopyEnds chip dest src k (sectorsOf totalSize) issued flash) issued flash := by
  obtain ⟨apart, destEnds, srcEnds, all⟩ := copyRanges_sectors ranges
  have sectors : sectorsOf totalSize = (totalSize.toNat + 4095) / 4096 := rfl
  have destSector : dest.toNat % 4096 = 0 := ranges.destSector
  have srcSector : src.toNat % 4096 = 0 := ranges.srcSector
  induction rounds generalizing fuel k issued flash with
  | zero =>
      cases fuel with
      | zero => omega
      | succ fuel =>
          have last : ¬ BitVec.ofNat 32 (4096 * k) < totalSize := by
            rw [BitVec.lt_def, offset_of_sector (by omega)]
            omega
          rw [copyLoop, if_neg last]
          refine wp_pure _ ⟨⟨0, rfl⟩, fun _ => id, iff_of_true rfl ?_, ?_, ?_⟩
          · intro j low high
            omega
          · intro _ j low high
            omega
          · intro _ _
            refine ⟨fun e => Or.inl, ?_⟩
            intro x
            exact (if_neg (by omega)).symm
  | succ rounds ih =>
      cases fuel with
      | zero => omega
      | succ fuel =>
          have small : 4096 * k < 2 ^ 32 := by omega
          have more : BitVec.ofNat 32 (4096 * k) < totalSize := by
            rw [BitVec.lt_def, offset_of_sector small]
            omega
          have source : (src + BitVec.ofNat 32 (4096 * k)).toNat = src.toNat + 4096 * k := by
            rw [BitVec.toNat_add, offset_of_sector small]
            exact Nat.mod_eq_of_lt (by omega)
          have target : (dest + BitVec.ofNat 32 (4096 * k)).toNat = dest.toNat + 4096 * k := by
            rw [BitVec.toNat_add, offset_of_sector small]
            exact Nat.mod_eq_of_lt (by omega)
          have next : BitVec.ofNat 32 (4096 * k) + BitVec.ofNat 32 SPI_FLASH_SEC_SIZE = BitVec.ofNat 32 (4096 * (k + 1)) := by
            rw [← BitVec.ofNat_add]
            rfl
          have sector : (dest.toNat + 4096 * k) / 4096 = dest.toNat / 4096 + k := by omega
          rw [copyLoop, if_pos more, source, target, next]
          refine wp_bind (readData_ends (by omega) (by decide) ?_ ?_)
          · intro fails
            dsimp only
            rw [if_pos (by decide)]
            exact wp_pure _ (copyEnds_refused (by omega) (fun e old => List.mem_append_left _ old) (Or.inl fails))
          · intro loaded
            dsimp only
            rw [if_neg (by decide)]
            refine wp_bind (wp_mono (writeDataSafe_ends (by omega) (Lib.Memory.length_load _ _ _)) ?_ fun _ stop => stop)
            intro o issued' flash' safe
            obtain ⟨ret, rfl⟩ := safe.returns
            have kept : ∀ e ∈ issued, e ∈ issued' := fun e old => safe.keeps e (List.mem_append_left _ old)
            rw [sector] at safe
            by_cases zero : ret = 0
            · subst zero
              have unread := safe.zero.mp rfl
              dsimp only
              rw [if_neg (by decide)]
              refine wp_mono (ih (by omega) (by omega)) ?_ fun _ stop => stop
              intro o'' issued'' flash'' later
              refine copyEnds_next (by omega) rfl apart ?_ kept (safe.failed rfl) ?_ later
              · rintro (readFails | eraseFails | ⟨written, checkFails⟩)
                · exact absurd loaded (by rw [readFails]; decide)
                · exact unread.1 eraseFails
                · rcases unread.2 with failed | checked
                  · exact written failed
                  · exact checked checkFails
              · intro written
                obtain ⟨logged, stored⟩ := safe.done rfl written
                refine ⟨?_, stored⟩
                intro e member
                rcases logged e member with early | success
                · rcases List.mem_append.mp early with old | single
                  · exact Or.inl old
                  · rw [List.mem_singleton.mp single]
                    exact Or.inr rfl
                · exact Or.inr success
            · dsimp only
              rw [if_pos zero]
              refine wp_pure _ (copyEnds_refused (by omega) kept ?_)
              by_cases eraseFails : chip.fails (.eraseSector (dest.toNat / 4096 + k)) = true
              · exact Or.inr (Or.inl eraseFails)
              · right
                right
                have notZero : ¬ (Outcome.ok ret : Outcome Unit Int) = .ok 0 := by
                  intro same
                  cases same
                  exact zero rfl
                rw [safe.zero] at notZero
                simp only [not_and, not_or, not_not] at notZero
                exact notZero eraseFails

/-- A copy reports failures exactly when no write fails, or another operation does. -/
theorem copy_reports_failure_iff (chip : FaultyFlash) (ranges : CopyRanges dest src totalSize) (flash : Flash) :
    ReportsFailure chip dest src totalSize flash ↔ NoWriteFailsAlone chip dest src totalSize := by
  obtain ⟨apart, destEnds, srcEnds, all⟩ := copyRanges_sectors ranges
  have ends : CopyEnds chip dest src 0 (sectorsOf totalSize) [] flash
      (espFlashSectorCopy chip dest src totalSize [] flash).outcome
      (espFlashSectorCopy chip dest src totalSize [] flash).volatile
      (espFlashSectorCopy chip dest src totalSize [] flash).durable := by
    have run : copyWp (copyLoop chip dest src totalSize (2 ^ 20 + 1) (BitVec.ofNat 32 (4096 * 0)))
        (CopyEnds chip dest src 0 (sectorsOf totalSize) [] flash) [] flash :=
      copyLoop_ends ranges (by omega) (Nat.zero_add _)
    exact run.ends
  constructor
  · intro reports
    by_cases other : ∃ k < sectorsOf totalSize, OtherFails chip dest src k
    · exact Or.inr other
    · left
      intro k inside writeFails
      have zero := ends.zero.mpr fun j _ high fails => other ⟨j, high, fails⟩
      obtain ⟨e, member, entry⟩ := ends.failed zero k (Nat.zero_le k) inside writeFails
      have success := (reports.2 zero).1 e member
      rw [entry] at success
      cases success
  · intro condition
    refine ⟨ends.returns, ?_⟩
    intro zero
    have none := ends.zero.mp zero
    rcases condition with written | ⟨k, inside, fails⟩
    · obtain ⟨logged, copied⟩ := ends.done zero fun j _ high => written j high
      refine ⟨?_, ?_⟩
      · intro e member
        rcases logged e member with old | success
        · cases old
        · exact success
      · apply List.ext_getElem
        · rw [Lib.Memory.length_load, Lib.Memory.length_load]
        · intro i inside inside'
          rw [Lib.Memory.length_load] at inside
          simp only [Lib.Memory.load, List.getElem_map, List.getElem_range]
          rw [copied, if_pos (by omega)]
          congr 1
          omega
    · exact absurd fails (none k (Nat.zero_le k) inside)

end

def oneWriteFails : FaultyFlash where
  fails := fun op => op = .writeData 0x10000 4096
  delivers := fun _ _ => []
  leaves := fun _ flash => flash

theorem copy_reports_failure_none :
    ReportsFailure oneWriteFails 0x20000 0x30000 0x1000 (fun _ => 0) ↔
      NoWriteFailsAlone oneWriteFails 0x20000 0x30000 0x1000 :=
  copy_reports_failure_iff oneWriteFails ⟨by decide, by decide, by decide, by decide, by decide⟩ fun _ => 0

/-- The copy of one sector to `0x10000` returns zero although nothing is written. -/
theorem failing_write_returns_zero : ¬ ReportsFailure oneWriteFails 0x10000 0x30000 0x1000 fun _ => 0 := by
  have ranges : CopyRanges 0x10000 0x30000 0x1000 := ⟨by decide, by decide, by decide, by decide, by decide⟩
  rw [copy_reports_failure_iff oneWriteFails ranges]
  rintro (written | ⟨k, inside, fails⟩)
  · exact written 0 (by decide) (by unfold WriteFails; decide)
  · have first : k = 0 := Nat.lt_one_iff.mp inside
    subst first
    revert fails
    unfold OtherFails WriteFails
    decide

end EspFirmware.Proof.Boot
