import Mathlib.Tactic.SplitIfs
import Mathlib.Tactic.ByContra
import EspFirmware.Boot.Ota

/-!
What erasing a sector and programming words do to the records of the OTA data, and what the programs that
do it can leave behind.
-/

namespace EspFirmware.Proof.Boot
open EspFirmware.Boot EspFirmware.Lib EspFirmware.Lib.Prog
open EspFirmware.Nvs (Byte Word)

theorem read_shifted {memory memory' : Memory} {a a' : Nat} (same : ∀ i < 32, memory' (a' + i) = memory (a + i)) :
    OtaSelect.read memory' a' = OtaSelect.read memory a := by
  have word (k : Nat) (inside : k ≤ 28) : memory'.load32 (a' + k) = memory.load32 (a + k) := by
    unfold Memory.load32
    simp only [Nat.add_assoc]
    rw [same (k + 3) (by omega), same (k + 2) (by omega), same (k + 1) (by omega), same k (by omega)]
  unfold OtaSelect.read
  rw [show memory'.load32 a' = memory.load32 a from word 0 (by omega), word 28 (by omega)]
  congr 1
  apply List.map_congr_left
  intro k member
  rw [List.mem_range] at member
  rw [Nat.add_assoc, Nat.add_assoc]
  exact word (4 + 4 * k) (by omega)

theorem read_congr {flash flash' : Flash} {a : Nat} (same : ∀ x, a ≤ x → x < a + 32 → flash' x = flash x) :
    OtaSelect.read flash' a = OtaSelect.read flash a :=
  read_shifted fun i _ => same (a + i) (by omega) (by omega)

theorem load32_blank {flash : Flash} {a : Nat} (blank : ∀ x, a ≤ x → x < a + 4 → flash x = 0xFF) :
    flash.load32 a = UINT32_MAX := by
  unfold Memory.load32
  rw [blank a (by omega) (by omega), blank (a + 1) (by omega) (by omega), blank (a + 2) (by omega) (by omega),
    blank (a + 3) (by omega) (by omega)]
  rfl

theorem max_and (w : Word) : UINT32_MAX &&& w = w := BitVec.allOnes_and

theorem eraseSector_inside {flash : Flash} {sec x : Nat} (low : sec * 4096 ≤ x) (high : x < sec * 4096 + 4096) :
    eraseSector sec flash x = 0xFF := by
  rw [eraseSector, Memory.fill, if_pos ⟨low, high⟩]

theorem eraseSector_outside {flash : Flash} {sec x : Nat} (outside : x < sec * 4096 ∨ sec * 4096 + 4096 ≤ x) :
    eraseSector sec flash x = flash x :=
  Memory.fill_other flash _ outside

theorem read_eraseSector_other {flash : Flash} {sec a : Nat} (aligned : a % 4096 = 0) (other : a ≠ sec * 4096) :
    OtaSelect.read (eraseSector sec flash) a = OtaSelect.read flash a :=
  read_congr fun x low high => eraseSector_outside (by omega)

theorem load32_eraseSector {flash : Flash} {sec a k : Nat} (here : a = sec * 4096) (inside : k + 4 ≤ 4096) :
    (eraseSector sec flash).load32 (a + k) = UINT32_MAX :=
  load32_blank fun x low high => eraseSector_inside (by omega) (by omega)

def programWords : List Word → Nat → Flash → Flash
  | [], _, flash => flash
  | w :: rest, a, flash => programWords rest (a + 4) (programWord a w flash)

theorem programWords_cons (w : Word) (rest : List Word) (a : Nat) (flash : Flash) :
    programWords (w :: rest) a flash = programWords rest (a + 4) (programWord a w flash) := rfl

theorem programWords_outside (ws : List Word) {a x : Nat} (flash : Flash) (outside : x < a ∨ a + 4 * ws.length ≤ x) :
    programWords ws a flash x = flash x := by
  induction ws generalizing a flash with
  | nil => rfl
  | cons w rest ih =>
      rw [List.length_cons] at outside
      rw [programWords_cons, ih _ (by omega), programWord]
      exact Memory.store32_other flash _ (by omega)

theorem programWords_load32 (ws : List Word) {a k : Nat} (flash : Flash) (inside : k < ws.length) :
    (programWords ws a flash).load32 (a + 4 * k) = flash.load32 (a + 4 * k) &&& ws.getD k 0 := by
  induction ws generalizing a k flash with
  | nil => cases inside
  | cons w rest ih =>
      cases k with
      | zero =>
          have rest_ : (programWords rest (a + 4) (programWord a w flash)).load32 a = (programWord a w flash).load32 a :=
            Memory.load32_congr fun x low high => programWords_outside rest _ (by omega)
          simp only [Nat.mul_zero, Nat.add_zero, programWords_cons, List.getD_cons_zero]
          rw [rest_, programWord, Memory.load32_store32]
      | succ k =>
          rw [List.length_cons] at inside
          rw [programWords_cons, show a + 4 * (k + 1) = a + 4 + 4 * k by omega, ih _ (by omega), programWord,
            Memory.load32_store32_of_apart _ _ (by omega)]
          rfl

theorem programWords_first (w : Word) (rest : List Word) (a : Nat) (flash : Flash) :
    (programWords (w :: rest) a flash).load32 a = flash.load32 a &&& w := by
  have first := @programWords_load32 (w :: rest) a 0 flash (by simp)
  rwa [Nat.mul_zero, Nat.add_zero] at first

theorem read_programWords_other {ws : List Word} {a b : Nat} (flash : Flash) (short : ws.length ≤ 8)
    (apart : b + 32 ≤ a ∨ a + 32 ≤ b) : OtaSelect.read (programWords ws a flash) b = OtaSelect.read flash b :=
  read_congr fun x low high => programWords_outside ws flash (by omega)

abbrev AnyCall : Flash → List Flash → Prop := fun _ _ => True

abbrev flashWp (p : FlashProg Unit) (post : Outcome EspErr Unit → Flash → Prop) (cut : Flash → Prop) (flash : Flash) : Prop :=
  wp AnyCall p (fun o _ d => post o d) cut () flash

theorem wp_writeWords (ws : List Word) (a : Nat) (flash : Flash) :
    flashWp (writeWords ws a) (fun o d => o = .ok () ∧ d = programWords ws a flash)
      (fun d => ∃ pre, pre <+: ws ∧ d = programWords pre a flash) flash := by
  induction ws generalizing a flash with
  | nil => exact wp_pure () ⟨rfl, rfl⟩
  | cons w rest ih =>
      apply wp_bind
      apply wp_write trivial
      · apply wp_mono (ih (a + 4) (programWord a w flash))
        · rintro o _ d ⟨done, rfl⟩
          exact ⟨done, rfl⟩
        · rintro d ⟨pre, initial, rfl⟩
          exact ⟨w :: pre, List.prefix_cons_inj w |>.mpr initial, rfl⟩
      · exact ⟨[w], ⟨rest, rfl⟩, rfl⟩

def ErasedAt (address : Word) (flash d : Flash) : Prop :=
  address.toNat % 4096 = 0 ∧ d = eraseSector (address.toNat / 4096) flash

theorem wp_eraseOne (chipSize : Word) (partition : EspPartition) (startAddr : Word) (flash : Flash) :
    flashWp (espPartitionEraseRange chipSize partition startAddr 4096)
      (fun o d => (o = .ok () → ErasedAt (partition.address + startAddr) flash d) ∧ (o ≠ .ok () → d = flash))
      (ErasedAt (partition.address + startAddr) flash) flash := by
  unfold espPartitionEraseRange
  split_ifs with first second third fourth
  · exact wp_throw _ ⟨nofun, fun _ => rfl⟩
  · exact wp_throw _ ⟨nofun, fun _ => rfl⟩
  · exact wp_throw _ ⟨nofun, fun _ => rfl⟩
  · exact wp_throw _ ⟨nofun, fun _ => rfl⟩
  · unfold spiFlashEraseRange
    split_ifs with unaligned
    · exact wp_throw _ ⟨nofun, fun _ => rfl⟩
    · have aligned : (partition.address + startAddr).toNat % 4096 = 0 := by
        by_contra odd
        exact unaligned (.inl odd)
      have one : (4096 : Word).toNat / SPI_FLASH_SEC_SIZE = 1 := rfl
      simp only [one, Nat.one_ne_zero, if_false, eraseSectors]
      apply wp_bind
      unfold spiFlashEraseSector
      split_ifs with outside
      · exact wp_throw _ ⟨nofun, fun _ => rfl⟩
      · exact wp_write trivial (wp_pure () ⟨fun _ => ⟨aligned, rfl⟩, fun other => absurd rfl other⟩) ⟨aligned, rfl⟩

def SectorsErased (num sec : Nat) (flash d : Flash) : Prop :=
  ∀ x, d x = if 4096 * sec ≤ x ∧ x < 4096 * (sec + num) then 0xFF else flash x

theorem sectorsErased_zero (sec : Nat) (flash : Flash) : SectorsErased 0 sec flash flash := by
  intro x
  have nowhere : ¬ (4096 * sec ≤ x ∧ x < 4096 * (sec + 0)) := by omega
  exact (if_neg nowhere).symm

theorem SectorsErased.cons {num sec : Nat} {flash d : Flash} (rest : SectorsErased num (sec + 1) (eraseSector sec flash) d) :
    SectorsErased (num + 1) sec flash d := by
  intro x
  rw [rest x]
  by_cases later : 4096 * (sec + 1) ≤ x ∧ x < 4096 * (sec + 1 + num)
  · have inside : 4096 * sec ≤ x ∧ x < 4096 * (sec + (num + 1)) := by omega
    rw [if_pos later, if_pos inside]
  · rw [if_neg later]
    by_cases here : sec * 4096 ≤ x ∧ x < sec * 4096 + 4096
    · have inside : 4096 * sec ≤ x ∧ x < 4096 * (sec + (num + 1)) := by omega
      rw [eraseSector_inside here.1 here.2, if_pos inside]
    · have outside : ¬ (4096 * sec ≤ x ∧ x < 4096 * (sec + (num + 1))) := by omega
      rw [eraseSector_outside (by omega), if_neg outside]

theorem wp_eraseSectors (chipSize : Word) (num sec : Nat) (flash : Flash) :
    flashWp (eraseSectors chipSize num sec)
      (fun o d => (o = .ok () → SectorsErased num sec flash d ∧ (0 < num → sec < chipSize.toNat / 4096)) ∧
        (d = flash ∨ sec < chipSize.toNat / 4096 ∧ ∃ m, 0 < m ∧ SectorsErased m sec flash d))
      (fun d => sec < chipSize.toNat / 4096 ∧ ∃ m, 0 < m ∧ SectorsErased m sec flash d) flash := by
  induction num generalizing sec flash with
  | zero => exact wp_pure () ⟨fun _ => ⟨sectorsErased_zero sec flash, nofun⟩, .inl rfl⟩
  | succ num ih =>
      unfold eraseSectors
      apply wp_bind
      unfold spiFlashEraseSector
      split_ifs with outside
      · exact wp_throw _ ⟨nofun, .inl rfl⟩
      · have inside : sec < chipSize.toNat / 4096 := Nat.not_le.mp outside
        have one : SectorsErased 1 sec flash (eraseSector sec flash) := .cons (sectorsErased_zero _ _)
        apply wp_write trivial
        · apply wp_mono (ih (sec + 1) (eraseSector sec flash))
          · rintro o _ d ⟨done, during⟩
            refine ⟨fun ok => ⟨(done ok).1.cons, fun _ => inside⟩, .inr ⟨inside, ?_⟩⟩
            rcases during with rfl | ⟨-, m, -, erased⟩
            · exact ⟨1, Nat.one_pos, one⟩
            · exact ⟨m + 1, Nat.succ_pos m, erased.cons⟩
          · rintro d ⟨-, m, -, erased⟩
            exact ⟨inside, m + 1, Nat.succ_pos m, erased.cons⟩
        · exact ⟨inside, 1, Nat.one_pos, one⟩

def Rewriting (flash : Flash) (seq : Word) (a b : Nat) (d : Flash) : Prop :=
  OtaSelect.read d b = OtaSelect.read flash b ∧
    ((OtaSelect.read d a).otaSeq = UINT32_MAX ∨ (OtaSelect.read d a).otaSeq = seq)

def Rewritten (flash : Flash) (seq : Word) (a b : Nat) (d : Flash) : Prop :=
  OtaSelect.read d b = OtaSelect.read flash b ∧ (OtaSelect.read d a).otaSeq = seq ∧
    (OtaSelect.read d a).crc = (OtaSelect.read d a).selectCrc

section
variable {flash : Flash} {s : OtaSelect} {a b : Nat}

theorem words_length (labels : s.seqLabel.length = 6) : s.words.length = 8 := by
  simp [OtaSelect.words, labels]

theorem eraseSector_word (here : a % 4096 = 0) {k : Nat} (inside : k < 8) :
    (eraseSector (a / 4096) flash).load32 (a + 4 * k) = UINT32_MAX :=
  load32_eraseSector (by omega) (by omega)

theorem eraseSector_first (here : a % 4096 = 0) : (eraseSector (a / 4096) flash).load32 a = UINT32_MAX := by
  have first := @eraseSector_word flash a here 0 (by decide)
  rwa [Nat.mul_zero, Nat.add_zero] at first

variable (flash) in
theorem rewriting_programWords (here : a % 4096 = 0) (there : b % 4096 = 0) (apart : a ≠ b)
    (labels : s.seqLabel.length = 6) {pre : List Word} (initial : pre <+: s.words) :
    Rewriting flash s.otaSeq a b (programWords pre a (eraseSector (a / 4096) flash)) := by
  have short := initial.length_le
  rw [words_length labels] at short
  constructor
  · rw [read_programWords_other _ short (by omega), read_eraseSector_other there (by omega)]
  · simp only [OtaSelect.read]
    cases pre with
    | nil =>
        left
        rw [programWords, eraseSector_first here]
    | cons w rest =>
        right
        have head : w = s.otaSeq := (List.cons_prefix_cons.mp initial).1
        rw [programWords_first, eraseSector_first here, max_and, head]

variable (flash) in
theorem rewritten_programWords (here : a % 4096 = 0) (there : b % 4096 = 0) (apart : a ≠ b)
    (labels : s.seqLabel.length = 6) (crc : s.crc = s.selectCrc) :
    Rewritten flash s.otaSeq a b (programWords s.words a (eraseSector (a / 4096) flash)) := by
  have word (k : Nat) (inside : k < 8) :
      (programWords s.words a (eraseSector (a / 4096) flash)).load32 (a + 4 * k) = s.words.getD k 0 := by
    rw [programWords_load32 _ _ (by rw [words_length labels]; exact inside), eraseSector_word here inside, max_and]
  have first : (OtaSelect.read (programWords s.words a (eraseSector (a / 4096) flash)) a).otaSeq = s.otaSeq := by
    simp only [OtaSelect.read, OtaSelect.words, List.cons_append]
    rw [programWords_first, eraseSector_first here, max_and]
  have last : (OtaSelect.read (programWords s.words a (eraseSector (a / 4096) flash)) a).crc = s.crc := by
    simp only [OtaSelect.read]
    rw [show a + 28 = a + 4 * 7 from rfl, word 7 (by decide)]
    simp [OtaSelect.words, List.getD_eq_getElem?_getD, labels]
  refine ⟨(rewriting_programWords flash here there apart labels (List.prefix_refl _)).1, first, ?_⟩
  rw [last, crc, OtaSelect.selectCrc, OtaSelect.selectCrc, first]

end

theorem wp_writeRecord (chipSize : Word) (partition : EspPartition) (dstOffset : Word) (new : OtaSelect)
    (labels : new.seqLabel.length = 6) (complete : new.crc = new.selectCrc) (flash : Flash) {a b : Nat}
    (here : (partition.address + dstOffset).toNat = a) (aligned : a % 4096 = 0) (there : b % 4096 = 0) (apart : a ≠ b) :
    flashWp (espPartitionWrite chipSize partition dstOffset new.words)
      (fun o d => (o = .ok () → Rewritten flash new.otaSeq a b d) ∧ Rewriting flash new.otaSeq a b d)
      (Rewriting flash new.otaSeq a b) (eraseSector (a / 4096) flash) := by
  have start := rewriting_programWords flash aligned there apart labels List.nil_prefix
  unfold espPartitionWrite
  split_ifs
  · exact wp_throw _ ⟨nofun, start⟩
  · exact wp_throw _ ⟨nofun, start⟩
  · unfold spiFlashWrite
    rw [if_neg (by simp [OtaSelect.words])]
    split_ifs
    · exact wp_throw _ ⟨nofun, start⟩
    · rw [here]
      apply wp_mono (wp_writeWords _ a (eraseSector (a / 4096) flash))
      · rintro o _ d ⟨-, rfl⟩
        exact ⟨fun _ => rewritten_programWords flash aligned there apart labels complete,
          rewriting_programWords flash aligned there apart labels (List.prefix_refl _)⟩
      · rintro d ⟨pre, initial, rfl⟩
        exact rewriting_programWords flash aligned there apart labels initial

/-- `rewrite_ota_seq` on the sector at `a`: wherever it stops, the other record is as before and this one has
no number or the new one; where it succeeds, this one is complete. -/
theorem wp_rewriteOtaSeq (chipSize seq : Word) {secId : Nat} (sector : secId = 0 ∨ secId = 1) {s : OtaSelect}
    (labels : s.seqLabel.length = 6) (partition : EspPartition) (flash : Flash) {a b : Nat}
    (here : (partition.address + BitVec.ofNat 32 (secId * 4096)).toNat = a) (there : b % 4096 = a % 4096) (apart : a ≠ b) :
    flashWp (rewriteOtaSeq chipSize seq secId s partition)
      (fun o d => (o = .ok () → Rewritten flash seq a b d) ∧ (d = flash ∨ Rewriting flash seq a b d))
      (Rewriting flash seq a b) flash := by
  have same : SPI_FLASH_SEC_SIZE * secId = secId * 4096 := Nat.mul_comm _ _
  let new : OtaSelect := ⟨seq, s.seqLabel, OtaSelect.selectCrc { s with otaSeq := seq }⟩
  unfold rewriteOtaSeq
  rw [if_pos sector, same]
  apply wp_bind
  apply wp_mono (wp_eraseOne chipSize partition _ flash)
  · rintro o _ d ⟨erased, kept⟩
    cases o with
    | ok _ =>
        obtain ⟨aligned, rfl⟩ := erased rfl
        rw [show SPI_FLASH_SEC_SIZE = 4096 from rfl, here] at aligned
        simp only [show SPI_FLASH_SEC_SIZE = 4096 from rfl, here]
        apply wp_mono (wp_writeRecord chipSize partition _ new labels rfl flash here aligned (by omega) apart)
        · rintro o _ d ⟨done, during⟩
          exact ⟨done, .inr during⟩
        · exact fun d during => during
    | err e =>
        rw [kept nofun]
        exact ⟨nofun, .inl rfl⟩
    | fault =>
        rw [kept nofun]
        exact ⟨nofun, .inl rfl⟩
  · rintro d ⟨aligned, rfl⟩
    rw [show SPI_FLASH_SEC_SIZE = 4096 from rfl, here] at aligned ⊢
    have start := @rewriting_programWords flash new a b aligned (by omega) apart labels [] List.nil_prefix
    rwa [programWords] at start

end EspFirmware.Proof.Boot
