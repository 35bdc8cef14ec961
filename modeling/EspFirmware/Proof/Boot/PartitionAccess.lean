import EspFirmware.Proof.Boot.EraseRange

/-!
Which bytes of the flash the calls for a partition touch.
-/

namespace EspFirmware.Proof.Boot
open EspFirmware.SpiFlash EspFirmware.Spec EspFirmware.Lib EspFirmware.Lib.Prog
open EspFirmware.Boot (EspErr Flash EspPartition)
open EspFirmware.Nvs (Byte Word)

/-! ## Touched bytes -/

theorem touches_append {ops more : List (Nat × Nat)} {x : Nat} :
    Touches (ops ++ more) x ↔ Touches ops x ∨ Touches more x := by
  constructor
  · rintro ⟨op, member, byte⟩
    rcases List.mem_append.mp member with early | late
    · exact Or.inl ⟨op, early, byte⟩
    · exact Or.inr ⟨op, late, byte⟩
  · rintro (⟨op, member, byte⟩ | ⟨op, member, byte⟩)
    · exact ⟨op, List.mem_append_left _ member, byte⟩
    · exact ⟨op, List.mem_append_right _ member, byte⟩

theorem touches_single {a n x : Nat} : Touches [(a % 2 ^ 32, n)] x ↔ ∃ i, a ≤ i ∧ i < a + n ∧ x = i % 2 ^ 32 := by
  constructor
  · rintro ⟨op, member, i, inside, rfl⟩
    rw [List.mem_singleton.mp member] at inside ⊢
    exact ⟨a + i, Nat.le_add_right a i, Nat.add_lt_add_left inside a, Nat.mod_add_mod a (2 ^ 32) i⟩
  · rintro ⟨i, low, high, rfl⟩
    refine ⟨_, List.mem_singleton_self _, i - a, by dsimp only; omega, ?_⟩
    rw [Nat.mod_add_mod, Nat.add_sub_cancel' low]

/-- The program touches only bytes at positions of `range`, and where all is good it ends with a value and touches
them all. A position is an address before it wraps. -/
structure TouchesRange {α : Type} (good : Prop) (returns : α → Prop) (range : Nat → Prop) (made : SpiCalls)
    (o : Outcome EspErr α) (made' : SpiCalls) : Prop where
  keeps : ∀ x, Touches made.touched x → Touches made'.touched x
  among : ∀ x, Touches made'.touched x → Touches made.touched x ∨ ∃ i, range i ∧ x = i % 2 ^ 32
  value : ∀ v, o = .ok v → returns v
  ends : good → ∃ v, o = .ok v
  covers : good → ∀ i, range i → Touches made'.touched (i % 2 ^ 32)

abbrev SpiTouches {α : Type} (good : Prop) (p : SpiProg α) (returns : α → Prop) (range : Nat → Prop)
    (made : SpiCalls) (flash : Flash) : Prop :=
  wp AnySpiCall p (fun o made' _ => TouchesRange good returns range made o made') (fun _ => True) made flash

section
variable {α β : Type} {rom : SpiRom} {good : Prop} {made : SpiCalls} {flash : Flash} {returns : α → Prop}
  {range : Nat → Prop}

theorem touches_pure {v : α} (holds : returns v) (empty : ∀ i, ¬ range i) :
    SpiTouches good (pure v) returns range made flash := by
  refine wp_pure v ⟨fun _ same => same, fun _ same => Or.inl same, ?_, fun _ => ⟨v, rfl⟩, ?_⟩
  · intro u ok
    cases ok
    exact holds
  · intro _ i inside
    exact absurd inside (empty i)

theorem touches_fault (bad : ¬ good) : SpiTouches good Prog.fault returns range made flash := by
  refine wp_still rfl ⟨fun _ same => same, fun _ same => Or.inl same, ?_, fun fine => absurd fine bad,
    fun fine => absurd fine bad⟩
  intro u ok
  cases ok

theorem touches_bind {p : SpiProg β} {f : β → SpiProg α} {first : Nat → Prop} {between : β → Prop}
    (rest : Nat → Prop) (early : SpiTouches good p between first made flash)
    (later : ∀ v made flash, between v → SpiTouches good (f v) returns rest made flash)
    (both : ∀ i, range i ↔ first i ∨ rest i) : SpiTouches good (p >>= f) returns range made flash := by
  refine wp_bind (wp_mono early ?_ fun _ stop => stop)
  intro o made' flash' done
  have among (x : Nat) (touched : Touches made'.touched x) :
      Touches made.touched x ∨ ∃ i, range i ∧ x = i % 2 ^ 32 := by
    rcases done.among x touched with old | ⟨i, inside, rfl⟩
    · exact Or.inl old
    · exact Or.inr ⟨i, (both i).mpr (Or.inl inside), rfl⟩
  cases o with
  | ok v =>
      refine wp_mono (later v made' flash' (done.value v rfl)) ?_ fun _ stop => stop
      intro o' made'' flash'' done'
      refine ⟨fun x old => done'.keeps x (done.keeps x old), ?_, done'.value, done'.ends, ?_⟩
      · intro x touched
        rcases done'.among x touched with old | ⟨i, inside, rfl⟩
        · exact among x old
        · exact Or.inr ⟨i, (both i).mpr (Or.inr inside), rfl⟩
      · intro fine i inside
        rcases (both i).mp inside with now | after
        · exact done'.keeps _ (done.covers fine i now)
        · exact done'.covers fine i after
  | err e =>
      refine ⟨done.keeps, among, ?_, ?_, ?_⟩
      · intro v ok
        cases ok
      · intro fine
        obtain ⟨v, ok⟩ := done.ends fine
        cases ok
      · intro fine
        obtain ⟨v, ok⟩ := done.ends fine
        cases ok
  | fault =>
      refine ⟨done.keeps, among, ?_, ?_, ?_⟩
      · intro v ok
        cases ok
      · intro fine
        obtain ⟨v, ok⟩ := done.ends fine
        cases ok
      · intro fine
        obtain ⟨v, ok⟩ := done.ends fine
        cases ok

theorem touchesRange_of_logged {a n : Nat} {o : Outcome EspErr α} {made' : SpiCalls}
    (logged : made'.touched = made.touched ++ [(a % 2 ^ 32, n)]) (value : ∀ v, o = .ok v → returns v)
    (ends : good → ∃ v, o = .ok v) (same : ∀ i, range i ↔ a ≤ i ∧ i < a + n) :
    TouchesRange good returns range made o made' := by
  have touched (x : Nat) : Touches made'.touched x ↔
      Touches made.touched x ∨ ∃ i, range i ∧ x = i % 2 ^ 32 := by
    rw [logged, touches_append, touches_single]
    simp only [same, and_assoc]
  refine ⟨?_, ?_, value, ends, ?_⟩
  · intro x old
    exact (touched x).mpr (Or.inl old)
  · intro x now
    exact (touched x).mp now
  · intro _ i inside
    exact (touched _).mpr (Or.inr ⟨i, inside, rfl⟩)

theorem writeRaw_touches {a b : Nat} {bytes : List Byte} {n : Nat} (wrapped : b % 2 ^ 32 = a % 2 ^ 32)
    (length : bytes.length = n) (succeeds : good → RomSucceeds rom) (same : ∀ i, range i ↔ a ≤ i ∧ i < a + n) :
    SpiTouches good (spiFlashWriteRaw rom b bytes) (fun _ => True) range made flash := by
  subst length
  unfold spiFlashWriteRaw
  rw [wrapped]
  refine wp_bind (wp_get (wp_bind (wp_read (wp_bind (wp_modify (wp_bind (wp_write trivial ?_ trivial)))))))
  dsimp only
  by_cases success : (rom.pageProgram made.calls flash (a % 2 ^ 32) bytes).2 = true
  · rw [if_pos success]
    exact wp_pure () (touchesRange_of_logged rfl (fun _ _ => trivial) (fun _ => ⟨(), rfl⟩) same)
  · rw [if_neg success]
    refine wp_throw _ (touchesRange_of_logged rfl (fun _ _ => trivial) ?_ same)
    intro fine
    exact absurd ((succeeds fine).programs _ _ _ _) success

theorem readRaw_touches {a n : Nat} (succeeds : good → RomSucceeds rom) (same : ∀ i, range i ↔ a ≤ i ∧ i < a + n) :
    SpiTouches good (spiFlashReadRaw rom a n) (fun _ => True) range made flash := by
  unfold spiFlashReadRaw
  refine wp_bind (wp_get (wp_bind (wp_read (wp_bind (wp_modify ?_)))))
  dsimp only
  by_cases success : (rom.readData made.calls flash (a % 2 ^ 32) n).2 = true
  · rw [if_pos success]
    exact wp_pure _ (touchesRange_of_logged rfl (fun _ _ => trivial) (fun _ => ⟨_, rfl⟩) same)
  · rw [if_neg success]
    refine wp_throw _ (touchesRange_of_logged rfl (fun _ _ => trivial) ?_ same)
    intro fine
    exact absurd ((succeeds fine).reads _ _ _ _) success

/-! ## Reading -/

theorem flashAlign_eq (n : Nat) : FLASH_ALIGN n = (n + 3) / 4 * 4 := rfl

theorem readLoop_touches (succeeds : good → RomSucceeds rom) {rounds srcAddr tmp size : Nat} {ram : Lib.Memory}
    (many : size < rounds) (same : ∀ i, range i ↔ srcAddr ≤ i ∧ i < srcAddr + FLASH_ALIGN size) :
    SpiTouches good (readLoop rom rounds srcAddr tmp size ram) (fun _ => True) range made flash := by
  induction rounds generalizing srcAddr tmp size ram made flash range with
  | zero => omega
  | succ rounds ih =>
      rw [readLoop]
      by_cases more : size ≠ 0
      · rw [if_pos more]
        dsimp only
        generalize cut : (if size ≥ SPI_READ_BUF_MAX then SPI_READ_BUF_MAX else size) = len
        obtain ⟨fitting, positive, _, full⟩ := pieceLength (Nat.pos_of_ne_zero more) cut
        refine touches_bind (fun i => srcAddr + len ≤ i ∧ i < srcAddr + len + FLASH_ALIGN (size - len))
          (readRaw_touches succeeds fun _ => Iff.rfl) ?_ ?_
        · intro bytes made' flash' _
          exact ih (by omega) fun _ => Iff.rfl
        · intro i
          rw [same, flashAlign_eq, flashAlign_eq, flashAlign_eq]
          omega
      · rw [if_neg more]
        refine touches_pure trivial ?_
        intro i inside
        rw [same, flashAlign_eq] at inside
        omega

def InWords (start size i : Nat) : Prop := start / 4 * 4 ≤ i ∧ i < FLASH_ALIGN (start + size)

theorem spiFlashRead_touches (succeeds : good → RomSucceeds rom) {srcAddr dest size : Nat} {ram : Lib.Memory}
    (given : dest ≠ 0) (nonempty : size ≠ 0) :
    SpiTouches good (spiFlashRead rom srcAddr dest size ram) (fun _ => True) (InWords srcAddr size) made flash := by
  unfold spiFlashRead
  rw [if_neg nonempty, if_neg given]
  by_cases bounced : NOT_ALIGN srcAddr ∨ NOT_ALIGN dest ∨ NOT_ALIGN size
  · rw [if_pos bounced]
    by_cases unaligned : NOT_ALIGN srcAddr
    · rw [if_pos unaligned]
      change srcAddr % 4 ≠ 0 at unaligned
      dsimp only
      have offset : srcAddr - (srcAddr - srcAddr % 4) = srcAddr % 4 := by omega
      rw [flashAlignBefore_eq unaligned, offset]
      generalize cut : (if FLASH_ALIGN_BYTES - srcAddr % 4 > size then size
        else FLASH_ALIGN_BYTES - srcAddr % 4) = wbytes
      obtain ⟨fitting, positive, room, next⟩ := headLength nonempty cut
      refine touches_bind (fun i => srcAddr + wbytes ≤ i ∧ i < srcAddr + wbytes + FLASH_ALIGN (size - wbytes))
        (readRaw_touches succeeds fun _ => Iff.rfl) ?_ ?_
      · intro bytes made' flash' _
        exact readLoop_touches succeeds (by omega) fun _ => Iff.rfl
      · intro i
        change srcAddr / 4 * 4 ≤ i ∧ i < (srcAddr + size + 3) / 4 * 4 ↔
          (srcAddr - srcAddr % 4 ≤ i ∧ i < srcAddr - srcAddr % 4 + 4) ∨
            (srcAddr + wbytes ≤ i ∧ i < srcAddr + wbytes + (size - wbytes + 3) / 4 * 4)
        omega
    · rw [if_neg unaligned]
      have aligned : srcAddr % 4 = 0 := Decidable.not_not.mp unaligned
      refine readLoop_touches succeeds (Nat.lt_succ_self size) ?_
      intro i
      change srcAddr / 4 * 4 ≤ i ∧ i < (srcAddr + size + 3) / 4 * 4 ↔
        srcAddr ≤ i ∧ i < srcAddr + (size + 3) / 4 * 4
      omega
  · rw [if_neg bounced]
    simp only [not_or, not_not] at bounced
    obtain ⟨aligned, _, whole⟩ := bounced
    refine touches_bind (fun _ => False) (readRaw_touches succeeds fun _ => Iff.rfl) ?_ ?_
    · intro bytes made' flash' _
      exact touches_pure trivial fun _ => id
    · intro i
      change srcAddr / 4 * 4 ≤ i ∧ i < (srcAddr + size + 3) / 4 * 4 ↔ (srcAddr ≤ i ∧ i < srcAddr + size) ∨ False
      change srcAddr % 4 = 0 at aligned
      change size % 4 = 0 at whole
      rw [or_false]
      omega

/-! ## Writing -/

theorem programPages_touches (succeeds : good → RomSucceeds rom) {target : Nat} {src : Lib.Memory} {pgmNum : Nat}
    (few : pgmNum < 2 ^ 8) {rounds : Nat} {i : Byte} {pgmLen : Nat} (left : i.toNat + rounds = pgmNum)
    (short : pgmLen + 256 * rounds < 2 ^ 32) {fuel : Nat} (fits : good → rounds < fuel) {range : Nat → Prop}
    (same : ∀ j, range j ↔ target + pgmLen ≤ j ∧ j < target + pgmLen + 256 * rounds) :
    SpiTouches good (programPages rom target src pgmNum fuel i pgmLen) (fun v => v = pgmLen + 256 * rounds) range made
      flash := by
  induction rounds generalizing fuel i pgmLen made flash range with
  | zero =>
      cases fuel with
      | zero => exact touches_fault fun fine => absurd (fits fine) (Nat.lt_irrefl _)
      | succ fuel =>
          rw [programPages, if_neg (by omega)]
          refine touches_pure rfl ?_
          intro j inside
          rw [same] at inside
          omega
  | succ rounds ih =>
      cases fuel with
      | zero => exact touches_fault fun fine => absurd (fits fine) (Nat.not_lt_zero _)
      | succ fuel =>
          have more : i.toNat < pgmNum := by omega
          rw [Nat.mul_succ, ← Nat.add_assoc] at short
          have next : (pgmLen + PAGE_SIZE) % 2 ^ 32 = pgmLen + 256 := Nat.mod_eq_of_lt (by change pgmLen + 256 < 2 ^ 32; omega)
          have counted : (i + 1).toNat = i.toNat + 1 := by
            rw [BitVec.toNat_add]
            exact Nat.mod_eq_of_lt (by change i.toNat + 1 < 2 ^ 8; omega)
          have rest : pgmLen + 256 * (rounds + 1) = pgmLen + 256 + 256 * rounds := by omega
          rw [programPages, if_pos more, next, rest]
          have page : (src.load (pgmLen / 4 * 4) PAGE_SIZE).length = 256 := Lib.Memory.length_load _ _ _
          refine touches_bind (fun j => target + (pgmLen + 256) ≤ j ∧ j < target + (pgmLen + 256) + 256 * rounds)
            (writeRaw_touches (Nat.mod_mod _ _) page succeeds fun _ => Iff.rfl) ?_ ?_
          · intro _ made' flash' _
            exact ih (by omega) (by omega) (fun fine => Nat.lt_of_succ_lt_succ (fits fine)) fun _ => Iff.rfl
          · intro j
            rw [same]
            omega

theorem program_touches (succeeds : good → RomSucceeds rom) {target : Nat} {src : Lib.Memory} {len : Nat}
    (short : len < 2 ^ 32) (few : (len - (256 - target % 256)) / 256 < 2 ^ 8) {fuel : Nat}
    (fits : good → 2 ^ 8 < fuel) {range : Nat → Prop} (same : ∀ j, range j ↔ target ≤ j ∧ j < target + len) :
    SpiTouches good (spiFlashProgram rom fuel target src len) (fun _ => True) range made flash := by
  unfold spiFlashProgram
  dsimp only
  change SpiTouches good (if len < 256 - target % 256 then _ else _) _ _ _ _
  generalize first : 256 - target % 256 = pgmLen at few ⊢
  by_cases small : len < pgmLen
  · rw [if_pos small]
    exact writeRaw_touches rfl (Lib.Memory.length_load _ _ _) succeeds same
  · rw [if_neg small]
    change SpiTouches good (spiFlashWriteRaw rom target (src.load 0 pgmLen) >>= fun _ =>
      programPages rom target src ((len - pgmLen) / 256) fuel 0 pgmLen >>= fun pgmLen => _) _ _ _ _
    have pages : 256 * ((len - pgmLen) / 256) ≤ len - pgmLen := Nat.mul_div_le _ _
    generalize counted : (len - pgmLen) / 256 = rounds at few pages
    refine touches_bind (fun j => target + pgmLen ≤ j ∧ j < target + len)
      (writeRaw_touches rfl (Lib.Memory.length_load _ _ _) succeeds fun _ => Iff.rfl) ?_ ?_
    · intro _ made' flash' _
      refine touches_bind (fun j => target + pgmLen + 256 * rounds ≤ j ∧ j < target + len)
        (programPages_touches succeeds few (by simp) (by omega) (fun fine => Nat.lt_trans few (fits fine))
          fun _ => Iff.rfl) ?_ ?_
      · rintro v made'' flash'' rfl
        refine writeRaw_touches (a := target + (pgmLen + 256 * rounds)) (Nat.mod_mod _ _)
          (Lib.Memory.length_load _ _ _) succeeds ?_
        intro j
        omega
      · intro j
        omega
    · intro j
      rw [same]
      omega

theorem writeLoop_touches (succeeds : good → RomSucceeds rom) {fuel : Nat} (fits : good → 2 ^ 8 < fuel)
    {data : Lib.Memory} {rounds destAddr off size : Nat} (many : size < rounds) (aligned : destAddr % 4 = 0)
    (same : ∀ i, range i ↔ destAddr ≤ i ∧ i < destAddr + FLASH_ALIGN size) :
    SpiTouches good (writeLoop rom fuel data rounds destAddr off size) (fun _ => True) range made flash := by
  induction rounds generalizing destAddr off size made flash range with
  | zero => omega
  | succ rounds ih =>
      rw [writeLoop]
      by_cases more : size > 0
      · rw [if_pos more]
        dsimp only
        generalize cut : (if size ≥ SPI_READ_BUF_MAX then SPI_READ_BUF_MAX else size) = len
        obtain ⟨fitting, positive, room, full⟩ := pieceLength more cut
        have up : FLASH_ALIGN len = (len + 3) / 4 * 4 := rfl
        have piece (last : List Byte) (made : SpiCalls) (flash : Flash) : SpiTouches good
            (spiFlashProgram rom fuel destAddr (bufferOf (data.load off len ++
              last.drop (len - (FLASH_ALIGN len - FLASH_ALIGN_BYTES)))) (FLASH_ALIGN len) >>= fun _ =>
              writeLoop rom fuel data rounds (destAddr + len) (off + len) (size - len))
            (fun _ => True) range made flash := by
          refine touches_bind (fun i => destAddr + len ≤ i ∧ i < destAddr + len + FLASH_ALIGN (size - len))
            (program_touches succeeds (by omega) (by omega) fits fun _ => Iff.rfl) ?_ ?_
          · intro _ made'' flash'' _
            by_cases done : size - len = 0
            · rw [done]
              cases rounds with
              | zero => omega
              | succ rounds =>
                  rw [writeLoop, if_neg (Nat.lt_irrefl 0)]
                  refine touches_pure trivial ?_
                  intro i inside
                  rw [flashAlign_eq] at inside
                  omega
            · exact ih (by omega) (by omega) fun _ => Iff.rfl
          · intro i
            rw [same, flashAlign_eq, flashAlign_eq, flashAlign_eq]
            omega
        by_cases partly : FLASH_ALIGN len ≠ len
        · -- What is read to fill up the last word is programmed again.
          rw [if_pos partly]
          refine touches_bind range (readRaw_touches succeeds fun _ => Iff.rfl) ?_ ?_
          · intro last made' flash' _
            exact piece last made' flash'
          · intro i
            change range i ↔ (destAddr + (FLASH_ALIGN len - 4) ≤ i ∧
              i < destAddr + (FLASH_ALIGN len - 4) + 4) ∨ range i
            rw [same, flashAlign_eq, flashAlign_eq]
            omega
        · rw [if_neg partly]
          have nothing : SpiTouches good (pure []) (fun _ : List Byte => True) (fun _ => False) made flash :=
            touches_pure trivial fun _ => id
          refine touches_bind range nothing ?_ ?_
          · intro last made' flash' _
            exact piece last made' flash'
          · intro i
            exact (or_iff_right id).symm
      · rw [if_neg more]
        refine touches_pure trivial ?_
        intro i inside
        rw [same, flashAlign_eq] at inside
        omega

theorem spiFlashWrite_touches (succeeds : good → RomSucceeds rom) {fuel : Nat} (fits : good → 2 ^ 8 < fuel)
    {chipSize : Word} {destAddr src size : Nat} {data : Lib.Memory} (given : src ≠ 0) (nonempty : size ≠ 0)
    (onChip : (destAddr + size) % 2 ^ 32 ≤ chipSize.toNat) (small : size < 2 ^ 32)
    (few : Bounced destAddr src size ∨ (size - (256 - destAddr % 256)) / 256 < 2 ^ 8) :
    SpiTouches good (spiFlashWrite rom fuel chipSize destAddr src data size) (fun _ => True) (InWords destAddr size)
      made flash := by
  unfold spiFlashWrite
  rw [if_neg nonempty, if_neg given, if_neg (Nat.not_lt.mpr onChip)]
  by_cases bounced : NOT_ALIGN destAddr ∨ NOT_ALIGN src ∨ NOT_ALIGN size ∨ IS_FLASH src
  · rw [if_pos bounced]
    by_cases unaligned : NOT_ALIGN destAddr
    · rw [if_pos unaligned]
      change destAddr % 4 ≠ 0 at unaligned
      dsimp only
      have offset : destAddr - (destAddr - destAddr % 4) = destAddr % 4 := by omega
      rw [flashAlignBefore_eq unaligned, offset]
      generalize cut : (if FLASH_ALIGN_BYTES - destAddr % 4 > size then size
        else FLASH_ALIGN_BYTES - destAddr % 4) = wbytes
      obtain ⟨fitting, positive, room, next⟩ := headLength nonempty cut
      refine touches_bind (InWords destAddr size) (readRaw_touches succeeds fun _ => Iff.rfl) ?_ ?_
      · intro old made' flash' _
        refine touches_bind (fun i => destAddr + wbytes ≤ i ∧ i < destAddr + wbytes + FLASH_ALIGN (size - wbytes))
          (program_touches succeeds (by decide) (by change (4 - _) / 256 < 2 ^ 8; omega) fits fun _ => Iff.rfl) ?_ ?_
        · intro _ made'' flash'' _
          by_cases done : size - wbytes = 0
          · rw [done, writeLoop, if_neg (Nat.lt_irrefl 0)]
            refine touches_pure trivial ?_
            intro i inside
            rw [flashAlign_eq] at inside
            omega
          · exact writeLoop_touches succeeds fits (by omega) (next (by omega)) fun _ => Iff.rfl
        · intro i
          change destAddr / 4 * 4 ≤ i ∧ i < (destAddr + size + 3) / 4 * 4 ↔
            (destAddr - destAddr % 4 ≤ i ∧ i < destAddr - destAddr % 4 + 4) ∨
              (destAddr + wbytes ≤ i ∧ i < destAddr + wbytes + (size - wbytes + 3) / 4 * 4)
          omega
      · intro i
        change destAddr / 4 * 4 ≤ i ∧ i < (destAddr + size + 3) / 4 * 4 ↔
          (destAddr - destAddr % 4 ≤ i ∧ i < destAddr - destAddr % 4 + 4) ∨
            (destAddr / 4 * 4 ≤ i ∧ i < (destAddr + size + 3) / 4 * 4)
        omega
    · rw [if_neg unaligned]
      have aligned : destAddr % 4 = 0 := Decidable.not_not.mp unaligned
      refine writeLoop_touches succeeds fits (Nat.lt_succ_self size) aligned ?_
      intro i
      change destAddr / 4 * 4 ≤ i ∧ i < (destAddr + size + 3) / 4 * 4 ↔
        destAddr ≤ i ∧ i < destAddr + (size + 3) / 4 * 4
      omega
  · rw [if_neg bounced]
    have few' := few.resolve_left bounced
    simp only [not_or, not_not] at bounced
    obtain ⟨aligned, _, whole, _⟩ := bounced
    refine program_touches succeeds small few' fits ?_
    intro i
    change destAddr % 4 = 0 at aligned
    change size % 4 = 0 at whole
    change destAddr / 4 * 4 ≤ i ∧ i < (destAddr + size + 3) / 4 * 4 ↔ destAddr ≤ i ∧ i < destAddr + size
    omega

/-! ## A counter that wraps -/

abbrev SpiReaches {α : Type} (p : SpiProg α) (range : Nat → Prop) (made : SpiCalls) (flash : Flash) : Prop :=
  wp AnySpiCall p (fun o made' _ => o = .fault ∧ (∀ x, Touches made.touched x → Touches made'.touched x) ∧
    ∀ i, range i → Touches made'.touched (i % 2 ^ 32)) (fun _ => True) made flash

theorem writeRaw_reaches (succeeds : RomSucceeds rom) {a b : Nat} (wrapped : b % 2 ^ 32 = a % 2 ^ 32)
    {bytes : List Byte} {n : Nat} (length : bytes.length = n) {p : SpiProg α} (rest : Nat → Prop)
    (later : ∀ made flash, SpiReaches p rest made flash)
    (both : ∀ i, range i → (a ≤ i ∧ i < a + n) ∨ rest i) :
    SpiReaches (spiFlashWriteRaw rom b bytes >>= fun _ => p) range made flash := by
  have one : SpiTouches True (spiFlashWriteRaw rom b bytes) (fun _ => True) (fun i => a ≤ i ∧ i < a + n) made flash :=
    writeRaw_touches wrapped length (fun _ => succeeds) fun _ => Iff.rfl
  refine wp_bind (wp_mono one ?_ fun _ stop => stop)
  intro o made' flash' done
  obtain ⟨v, rfl⟩ := done.ends trivial
  refine wp_mono (later made' flash') ?_ fun _ stop => stop
  rintro o' made'' flash'' ⟨fault, keeps, covers⟩
  refine ⟨fault, fun x old => keeps x (done.keeps x old), ?_⟩
  intro i inside
  rcases both i inside with now | after
  · exact keeps _ (done.covers trivial i now)
  · exact covers i after

theorem programPages_reaches (succeeds : RomSucceeds rom) {target : Nat} {src : Lib.Memory} {pgmNum : Nat}
    (many : 2 ^ 8 ≤ pgmNum) (fuel : Nat) {i : Byte} {pgmLen wrappedLen : Nat}
    (wrapped : wrappedLen % 2 ^ 32 = pgmLen % 2 ^ 32) :
    SpiReaches (programPages rom target src pgmNum fuel i wrappedLen)
      (fun j => target + pgmLen ≤ j ∧ j < target + pgmLen + 256 * fuel) made flash := by
  induction fuel generalizing i pgmLen wrappedLen made flash with
  | zero => exact wp_still rfl ⟨rfl, fun _ same => same, fun j inside => by omega⟩
  | succ fuel ih =>
      have more : i.toNat < pgmNum := Nat.lt_of_lt_of_le i.isLt many
      have next : (wrappedLen + PAGE_SIZE) % 2 ^ 32 % 2 ^ 32 = (pgmLen + 256) % 2 ^ 32 := by
        change (wrappedLen + 256) % 2 ^ 32 % 2 ^ 32 = (pgmLen + 256) % 2 ^ 32
        omega
      rw [programPages, if_pos more]
      refine writeRaw_reaches succeeds (a := target + pgmLen) (by omega) (Lib.Memory.length_load _ _ _)
        (fun j => target + (pgmLen + 256) ≤ j ∧ j < target + (pgmLen + 256) + 256 * fuel) (fun made flash => ih next) ?_
      intro j inside
      change (target + pgmLen ≤ j ∧ j < target + pgmLen + 256) ∨ _
      omega

theorem spiFlashWrite_reaches (succeeds : RomSucceeds rom) {chipSize : Word} {destAddr src size : Nat}
    {data : Lib.Memory} (given : src ≠ 0) (onChip : (destAddr + size) % 2 ^ 32 ≤ chipSize.toNat)
    (direct : ¬ Bounced destAddr src size) (many : 2 ^ 8 ≤ (size - (256 - destAddr % 256)) / 256) (fuel : Nat) :
    SpiReaches (spiFlashWrite rom fuel chipSize destAddr src data size)
      (fun j => destAddr + 256 ≤ j ∧ j < destAddr + 256 * fuel) made flash := by
  unfold spiFlashWrite
  have direct' : ¬ (NOT_ALIGN destAddr ∨ NOT_ALIGN src ∨ NOT_ALIGN size ∨ IS_FLASH src) := direct
  rw [if_neg (by omega), if_neg given, if_neg (Nat.not_lt.mpr onChip), if_neg direct']
  unfold spiFlashProgram
  dsimp only
  change SpiReaches (if size < 256 - destAddr % 256 then _ else _) _ _ _
  rw [if_neg (by omega)]
  refine writeRaw_reaches succeeds rfl (Lib.Memory.length_load _ _ _)
    (fun j => destAddr + (256 - destAddr % 256) ≤ j ∧ j < destAddr + (256 - destAddr % 256) + 256 * fuel) ?_ ?_
  · intro made' flash'
    refine wp_bind (wp_mono (programPages_reaches succeeds many fuel rfl) ?_ fun _ stop => stop)
    rintro o made'' flash'' ⟨rfl, keeps, covers⟩
    exact ⟨rfl, keeps, covers⟩
  · intro j inside
    omega

end

/-! ## Bytes of the partition -/

section
variable {α : Type} {partition : EspPartition} {offset size : Word}

def ByteInside (partition : EspPartition) (x : Nat) : Prop :=
  partition.address.toNat ≤ x ∧ x < partition.address.toNat + partition.size.toNat

theorem stays_of_touches {call : SpiRom → SpiProg α} {good : SpiRom → Prop} {returns : α → Prop} {range : Nat → Prop}
    (touches : ∀ rom calls flash, SpiTouches (good rom) (call rom) returns range ⟨calls, [], [], []⟩ flash)
    (inside : ∀ i, range i → ByteInside partition (i % 2 ^ 32)) : StaysInPartition partition call := by
  intro rom calls flash x touched
  rcases (touches rom calls flash).ends.among x touched with ⟨op, none, _⟩ | ⟨i, there, rfl⟩
  · cases none
  · exact inside i there

theorem inside_of_stays {call : SpiRom → SpiProg α} {rom : SpiRom} {returns : α → Prop} {range : Nat → Prop}
    (touches : SpiTouches True (call rom) returns range ⟨0, [], [], []⟩ fun _ => 0)
    (stays : StaysInPartition partition call) (i : Nat) (there : range i) : ByteInside partition (i % 2 ^ 32) :=
  stays rom 0 (fun _ => 0) _ (touches.ends.covers trivial i there)

theorem stays_of_refused {call : SpiRom → SpiProg α}
    (refused : ∀ rom calls flash, (call rom ⟨calls, [], [], []⟩ flash).volatile = ⟨calls, [], [], []⟩) :
    StaysInPartition partition call := by
  intro rom calls flash x touched
  rw [refused] at touched
  obtain ⟨op, none, _⟩ := touched
  cases none

theorem byte_outside (partition : EspPartition) : ∃ x < 2 ^ 32, ¬ ByteInside partition x := by
  have bound := partition.size.isLt
  have bound' := partition.address.isLt
  unfold ByteInside
  by_cases fits : partition.address.toNat + partition.size.toNat < 2 ^ 32
  · exact ⟨partition.address.toNat + partition.size.toNat, fits, by omega⟩
  · exact ⟨partition.address.toNat + partition.size.toNat - 2 ^ 32, by omega, by omega⟩

theorem words_inside_iff (starts : offset ≤ partition.size) (nonempty : size ≠ 0) :
    (∀ i, InWords (partition.address + offset).toNat size.toNat i → ByteInside partition (i % 2 ^ 32)) ↔
      WordsInPartition partition offset size := by
  have sum : (partition.address + offset).toNat = (partition.address.toNat + offset.toNat) % 2 ^ 32 :=
    BitVec.toNat_add _ _
  have positive : size.toNat ≠ 0 := fun zero => nonempty (BitVec.eq_of_toNat_eq zero)
  have starts' : offset.toNat ≤ partition.size.toNat := BitVec.le_def.mp starts
  have bound := partition.size.isLt
  have bound' := partition.address.isLt
  unfold InWords ByteInside
  simp only [flashAlign_eq]
  generalize start : (partition.address + offset).toNat = a at sum ⊢
  constructor
  · intro inside
    have small : partition.address.toNat + offset.toNat < 2 ^ 32 := by
      have first := inside a (by omega)
      omega
    rw [Nat.mod_eq_of_lt small] at sum
    have firstWord := (inside (a / 4 * 4) (by omega)).1
    have addressed : partition.address.toNat + offset.toNat + size.toNat ≤ 2 ^ 32 := by
      rcases Nat.lt_or_ge (2 ^ 32) (partition.address.toNat + offset.toNat + size.toNat) with long | fits
      · -- The range goes on at address zero.
        have zero := inside (2 ^ 32) (by omega)
        have last := inside partition.size.toNat (by omega)
        omega
      · exact fits
    have lastByte := inside ((a + size.toNat + 3) / 4 * 4 - 1) (by omega)
    have lastWord : FLASH_ALIGN (partition.address.toNat + offset.toNat + size.toNat) ≤
        partition.address.toNat + partition.size.toNat := by
      rw [flashAlign_eq]
      omega
    refine ⟨?_, addressed, by omega, lastWord⟩
    rw [flashAlign_eq] at lastWord
    unfold InPartition
    omega
  · intro words
    obtain ⟨_, addressed, firstWord, lastWord⟩ := words
    rw [flashAlign_eq] at lastWord
    intro i there
    omega

/-! ## The calls for a partition -/

theorem partitionRead_refused {rom : SpiRom} {dst : Nat} {ram : Lib.Memory} {made : SpiCalls} {flash : Flash}
    (refused : dst = 0 ∨ size = 0 ∨ ¬ PassesBounds partition offset size) :
    (espPartitionRead rom partition offset dst size ram made flash).volatile = made := by
  unfold espPartitionRead
  by_cases starts : offset > partition.size
  · rw [if_pos starts]
    rfl
  rw [if_neg starts]
  by_cases ends : offset + size > partition.size
  · rw [if_pos ends]
    rfl
  rw [if_neg ends]
  rcases refused with null | empty | bounds
  · subst null
    rw [read_to_null]
    split
    all_goals rfl
  · subst empty
    rfl
  · exact absurd ⟨BitVec.not_lt.mp starts, BitVec.not_lt.mp ends⟩ bounds

theorem partitionRead_passes {rom : SpiRom} {dst : Nat} {ram : Lib.Memory}
    (passes : PassesBounds partition offset size) :
    espPartitionRead rom partition offset dst size ram =
      spiFlashRead rom (partition.address + offset).toNat dst size.toNat ram := by
  unfold espPartitionRead
  rw [if_neg (BitVec.not_lt.mpr passes.1), if_neg (BitVec.not_lt.mpr passes.2)]

theorem toNat_ne_zero {w : Word} (nonzero : w ≠ 0) : w.toNat ≠ 0 := fun zero => nonzero (BitVec.eq_of_toNat_eq zero)

theorem partitionRead_inside_iff (partition : EspPartition) (offset : Word) (dst : Nat) (size : Word)
    (ram : Lib.Memory) :
    StaysInPartition partition (fun rom => espPartitionRead rom partition offset dst size ram) ↔
      ReadsInside partition offset dst size := by
  by_cases refused : dst = 0 ∨ size = 0 ∨ ¬ PassesBounds partition offset size
  · refine iff_of_true (stays_of_refused fun _ _ _ => partitionRead_refused refused) ?_
    rcases refused with null | empty | bounds
    · exact Or.inl null
    · exact Or.inr (Or.inl empty)
    · exact Or.inr (Or.inr (Or.inl bounds))
  · unfold ReadsInside
    have accepted := refused
    simp only [not_or, not_not] at accepted
    obtain ⟨given, nonempty, passes⟩ := accepted
    rw [or_iff_right given, or_iff_right nonempty, or_iff_right (not_not_intro passes),
      ← words_inside_iff passes.1 nonempty]
    have touches (good : Prop) (rom : SpiRom) (succeeds : good → RomSucceeds rom) (made : SpiCalls) (flash : Flash) :
        SpiTouches good (espPartitionRead rom partition offset dst size ram) (fun _ => True)
          (InWords (partition.address + offset).toNat size.toNat) made flash := by
      rw [partitionRead_passes passes]
      exact spiFlashRead_touches succeeds given (toNat_ne_zero nonempty)
    constructor
    · intro stays
      exact inside_of_stays (touches True exactRom (fun _ => exactRom_succeeds) _ _) stays
    · intro inside
      exact stays_of_touches (fun rom calls flash => touches _ rom id _ flash) inside

theorem partitionWrite_passes {rom : SpiRom} {fuel : Nat} {chipSize : Word} {src : Nat} {data : Lib.Memory}
    (passes : PassesBounds partition offset size) :
    espPartitionWrite rom fuel chipSize partition offset src data size.toNat =
      spiFlashWrite rom fuel chipSize (partition.address + offset).toNat src data size.toNat := by
  have same : BitVec.ofNat 32 size.toNat = size := by
    rw [BitVec.ofNat_toNat, BitVec.setWidth_eq]
  unfold espPartitionWrite
  rw [same, if_neg (BitVec.not_lt.mpr passes.1), if_neg (BitVec.not_lt.mpr passes.2)]

theorem partitionWrite_refused {rom : SpiRom} {fuel : Nat} {chipSize : Word} {src : Nat} {data : Lib.Memory}
    {made : SpiCalls} {flash : Flash}
    (refused : src = 0 ∨ size = 0 ∨ ¬ PassesBounds partition offset size ∨
      chipSize.toNat < ((partition.address + offset).toNat + size.toNat) % 2 ^ 32) :
    (espPartitionWrite rom fuel chipSize partition offset src data size.toNat made flash).volatile = made := by
  have same : BitVec.ofNat 32 size.toNat = size := by
    rw [BitVec.ofNat_toNat, BitVec.setWidth_eq]
  by_cases starts : offset > partition.size
  · unfold espPartitionWrite
    rw [if_pos starts]
    rfl
  by_cases ends : offset + size > partition.size
  · unfold espPartitionWrite
    rw [same, if_neg starts, if_pos ends]
    rfl
  have passes : PassesBounds partition offset size := ⟨BitVec.not_lt.mp starts, BitVec.not_lt.mp ends⟩
  rw [partitionWrite_passes passes]
  unfold spiFlashWrite
  by_cases nothing : size.toNat = 0
  · rw [if_pos nothing]
    rfl
  rw [if_neg nothing]
  by_cases null : src = 0
  · rw [if_pos null]
    rfl
  rw [if_neg null]
  by_cases beyond : ((partition.address + offset).toNat + size.toNat) % 2 ^ 32 > chipSize.toNat
  · rw [if_pos beyond]
    rfl
  · rcases refused with null' | empty | bounds | beyond'
    · exact absurd null' null
    · exact absurd (congrArg BitVec.toNat empty) nothing
    · exact absurd passes bounds
    · exact absurd beyond' beyond

theorem position_outside (partition : EspPartition) (start : Nat) :
    ∃ j, start ≤ j ∧ j < start + 2 ^ 32 ∧ ¬ ByteInside partition (j % 2 ^ 32) := by
  obtain ⟨x, small, outside⟩ := byte_outside partition
  refine ⟨start + (x + (2 ^ 32 - start % 2 ^ 32)) % 2 ^ 32, by omega, by omega, ?_⟩
  have there : (start + (x + (2 ^ 32 - start % 2 ^ 32)) % 2 ^ 32) % 2 ^ 32 = x := by omega
  rw [there]
  exact outside

theorem partitionWrite_inside_iff (chipSize : Word) (partition : EspPartition) (offset : Word) (src : Nat)
    (data : Lib.Memory) (size : Word) :
    (∀ fuel, StaysInPartition partition
        (fun rom => espPartitionWrite rom fuel chipSize partition offset src data size.toNat)) ↔
      WritesInside chipSize partition offset src size := by
  by_cases refused : src = 0 ∨ size = 0 ∨ ¬ PassesBounds partition offset size ∨
      chipSize.toNat < ((partition.address + offset).toNat + size.toNat) % 2 ^ 32
  · refine iff_of_true (fun fuel => stays_of_refused fun _ _ _ => partitionWrite_refused refused) ?_
    rcases refused with null | empty | bounds | beyond
    · exact Or.inl null
    · exact Or.inr (Or.inl empty)
    · exact Or.inr (Or.inr (Or.inl bounds))
    · exact Or.inr (Or.inr (Or.inr (Or.inl beyond)))
  · unfold WritesInside
    have accepted := refused
    simp only [not_or, not_not] at accepted
    obtain ⟨given, nonempty, passes, onChip⟩ := accepted
    rw [or_iff_right given, or_iff_right nonempty, or_iff_right (not_not_intro passes), or_iff_right onChip,
      ← words_inside_iff passes.1 nonempty]
    rw [Nat.not_lt] at onChip
    have counted : (Bounced (partition.address + offset).toNat src size.toNat ∨
        CountedPages (partition.address + offset).toNat src size.toNat) ↔
        (Bounced (partition.address + offset).toNat src size.toNat ∨
          (size.toNat - (256 - (partition.address + offset).toNat % 256)) / 256 < 2 ^ 8) := by
      constructor
      · rintro (bounced | null | mapped | few)
        · exact Or.inl bounced
        · exact absurd null given
        · exact Or.inl (Or.inr (Or.inr (Or.inr mapped)))
        · exact Or.inr few
      · rintro (bounced | few)
        · exact Or.inl bounced
        · exact Or.inr (Or.inr (Or.inr few))
    rw [counted]
    have touches (good : Prop) (rom : SpiRom) (succeeds : good → RomSucceeds rom) (fuel : Nat)
        (fits : good → 2 ^ 8 < fuel) (few : Bounced (partition.address + offset).toNat src size.toNat ∨
          (size.toNat - (256 - (partition.address + offset).toNat % 256)) / 256 < 2 ^ 8) (made : SpiCalls)
        (flash : Flash) :
        SpiTouches good (espPartitionWrite rom fuel chipSize partition offset src data size.toNat) (fun _ => True)
          (InWords (partition.address + offset).toNat size.toNat) made flash := by
      rw [partitionWrite_passes passes]
      exact spiFlashWrite_touches succeeds fits given (toNat_ne_zero nonempty) onChip size.isLt few
    constructor
    · intro stays
      by_cases few : Bounced (partition.address + offset).toNat src size.toNat ∨
          (size.toNat - (256 - (partition.address + offset).toNat % 256)) / 256 < 2 ^ 8
      · refine ⟨?_, few⟩
        exact inside_of_stays (touches True exactRom (fun _ => exactRom_succeeds) (2 ^ 8 + 1) (fun _ => by decide) few _ _)
          (stays (2 ^ 8 + 1))
      · simp only [not_or, Nat.not_lt] at few
        have reaches : SpiReaches (espPartitionWrite exactRom (2 ^ 25) chipSize partition offset src data size.toNat)
            (fun j => (partition.address + offset).toNat + 256 ≤ j ∧
              j < (partition.address + offset).toNat + 256 * 2 ^ 25) ⟨0, [], [], []⟩ fun _ => 0 := by
          rw [partitionWrite_passes passes]
          exact spiFlashWrite_reaches exactRom_succeeds given onChip few.1 few.2 _
        obtain ⟨j, low, high, outside⟩ :=
          position_outside partition ((partition.address + offset).toNat + 256)
        exact absurd (stays (2 ^ 25) exactRom 0 (fun _ => 0) _ (reaches.ends.2.2 j ⟨low, by omega⟩)) outside
    · rintro ⟨inside, few⟩ fuel
      exact stays_of_touches (fun rom calls flash => touches (RomSucceeds rom ∧ 2 ^ 8 < fuel) rom And.left fuel And.right
        few _ flash) inside

end

/-! ## Erasing -/

section
variable {rom : SpiRom} {chipSize : Word} {good : Prop} {made : SpiCalls} {flash : Flash}

structure ErasesAt (good : Prop) (range : Nat → Prop) (made made' : SpiCalls) : Prop where
  among : ∀ x, Touches made'.touched x → Touches made.touched x ∨ ∃ i, range i ∧ x = i % 2 ^ 32
  keeps : ∀ x, Touches made.touched x → Touches made'.touched x
  covers : good → ∀ i, range i → Touches made'.touched (i % 2 ^ 32)

def SectorBytes (chipSize : Word) (sec rounds i : Nat) : Prop :=
  sec ≤ i / 4096 ∧ i / 4096 < sec + rounds ∧ i / 4096 < chipSize.toNat / 4096

theorem erasesAt_nothing {range : Nat → Prop} (empty : ∀ i, ¬ range i) : ErasesAt good range made made where
  among := fun _ => Or.inl
  keeps := fun _ => id
  covers := fun _ i there => absurd there (empty i)

theorem ErasesAt.trans {range first rest : Nat → Prop} {made' made'' : SpiCalls}
    (early : ErasesAt good first made made') (late : ErasesAt good rest made' made'')
    (both : ∀ i, range i ↔ first i ∨ rest i) : ErasesAt good range made made'' where
  among := by
    intro x touched
    rcases late.among x touched with old | ⟨i, there, rfl⟩
    · rcases early.among x old with older | ⟨i, there, rfl⟩
      · exact Or.inl older
      · exact Or.inr ⟨i, (both i).mpr (Or.inl there), rfl⟩
    · exact Or.inr ⟨i, (both i).mpr (Or.inr there), rfl⟩
  keeps := fun x old => late.keeps x (early.keeps x old)
  covers := by
    intro fine i there
    rcases (both i).mp there with now | after
    · exact late.keeps _ (early.covers fine i now)
    · exact late.covers fine i after

theorem erasesAt_sector {made' : SpiCalls} {sec : Nat} (onChip : sec < chipSize.toNat / 4096)
    (logged : made'.touched = made.touched ++ [(sec * 4096, 4096)]) :
    ErasesAt good (SectorBytes chipSize sec 1) made made' := by
  have small := chip_sectors chipSize
  have address : sec * 4096 = sec * 4096 % 2 ^ 32 := (Nat.mod_eq_of_lt (by omega)).symm
  have touched (x : Nat) : Touches made'.touched x ↔
      Touches made.touched x ∨ ∃ i, SectorBytes chipSize sec 1 i ∧ x = i % 2 ^ 32 := by
    rw [logged, touches_append, address, touches_single]
    apply or_congr_right
    constructor
    · rintro ⟨i, low, high, rfl⟩
      have here : i / 4096 = sec := by omega
      exact ⟨i, ⟨by omega, by omega, by omega⟩, rfl⟩
    · rintro ⟨i, ⟨low, high, _⟩, rfl⟩
      exact ⟨i, by omega, by omega, rfl⟩
  refine ⟨?_, ?_, ?_⟩
  · intro x now
    exact (touched x).mp now
  · intro x old
    exact (touched x).mpr (Or.inl old)
  · intro _ i there
    exact (touched _).mpr (Or.inr ⟨i, there, rfl⟩)

theorem eraseSector_touches {sec : Word} {post : Outcome EspErr Unit → SpiCalls → Flash → Prop}
    (beyond : chipSize.toNat / 4096 ≤ sec.toNat → post (.err .flashOpFail) made flash)
    (failed : ∀ made' flash', sec.toNat < chipSize.toNat / 4096 →
      ¬ (∀ calls flash sec, (rom.eraseSector calls flash sec).2 = true) →
      made'.touched = made.touched ++ [(sec.toNat * 4096, 4096)] → post (.err .flashOpFail) made' flash')
    (done : ∀ made' flash', sec.toNat < chipSize.toNat / 4096 →
      made'.touched = made.touched ++ [(sec.toNat * 4096, 4096)] → post (.ok ()) made' flash') :
    wp AnySpiCall (spiFlashEraseSector rom chipSize sec) post (fun _ => True) made flash := by
  unfold spiFlashEraseSector
  by_cases outside : sec.toNat ≥ chipSize.toNat / Boot.SPI_FLASH_SEC_SIZE
  · rw [if_pos outside]
    exact wp_throw _ (beyond outside)
  · rw [if_neg outside]
    have onChip : sec.toNat < chipSize.toNat / 4096 := Nat.lt_of_not_le outside
    refine wp_bind (wp_get (wp_bind (wp_read (wp_bind (wp_modify (wp_bind (wp_write trivial ?_ trivial)))))))
    dsimp only
    by_cases success : (rom.eraseSector made.calls flash sec.toNat).2 = true
    · rw [if_pos success]
      exact wp_modify (done _ _ onChip rfl)
    · rw [if_neg success]
      exact wp_throw _ (failed _ _ onChip (fun fine => success (fine _ _ _)) rfl)

theorem eraseLoop_touches (succeeds : good → ∀ calls flash sec, (rom.eraseSector calls flash sec).2 = true)
    {rounds fuel : Nat} {sec : Word} (fits : rounds + 1 ≤ fuel) (counted : rounds + 1 ≤ 2 ^ 32) :
    wp AnySpiCall (eraseLoop rom chipSize fuel sec (BitVec.ofNat 32 (rounds + 1)))
      (fun _ made' _ => ErasesAt good (SectorBytes chipSize sec.toNat (rounds + 1)) made made') (fun _ => True) made
      flash := by
  have small := chip_sectors chipSize
  induction rounds generalizing fuel sec made flash with
  | zero =>
      cases fuel with
      | zero => omega
      | succ fuel =>
          rw [eraseLoop]
          refine wp_bind (eraseSector_touches ?_ ?_ ?_)
          · intro beyond
            refine erasesAt_nothing ?_
            rintro i ⟨low, _, high⟩
            omega
          · intro made' flash' onChip _ logged
            exact erasesAt_sector onChip logged
          · intro made' flash' onChip logged
            have last : ¬ BitVec.ofNat 32 (0 + 1) - 1 ≠ (0 : Word) := by decide
            dsimp only
            rw [if_neg last]
            exact wp_pure () (erasesAt_sector onChip logged)
  | succ rounds ih =>
      cases fuel with
      | zero => omega
      | succ fuel =>
          rw [eraseLoop]
          refine wp_bind (eraseSector_touches ?_ ?_ ?_)
          · intro beyond
            refine erasesAt_nothing ?_
            rintro i ⟨low, _, high⟩
            omega
          · intro made' flash' onChip fails logged
            have first : ErasesAt good (SectorBytes chipSize sec.toNat 1) made made' := erasesAt_sector onChip logged
            refine ⟨?_, first.keeps, fun fine => absurd (succeeds fine) fails⟩
            intro x touched
            rcases first.among x touched with old | ⟨i, ⟨low, high, chip⟩, rfl⟩
            · exact Or.inl old
            · exact Or.inr ⟨i, ⟨low, by omega, chip⟩, rfl⟩
          · intro made' flash' onChip logged
            obtain ⟨down, more⟩ := count_down rounds (by omega)
            have next : (sec + 1).toNat = sec.toNat + 1 := by
              rw [BitVec.toNat_add]
              exact Nat.mod_eq_of_lt (by change sec.toNat + 1 < 2 ^ 32; omega)
            dsimp only
            rw [down, if_pos more]
            refine wp_mono (ih (by omega) (by omega)) ?_ fun _ stop => stop
            intro o made'' flash'' later
            refine (erasesAt_sector onChip logged).trans later ?_
            intro i
            unfold SectorBytes
            rw [next]
            omega

def roundsOf (size : Word) : Nat := if size = 0 then 2 ^ 32 else size.toNat / 4096

theorem eraseRange_touches (succeeds : good → ∀ calls flash sec, (rom.eraseSector calls flash sec).2 = true)
    {start size : Word} (whole : WholeSectors start.toNat size.toNat) :
    wp AnySpiCall (spiFlashEraseRange rom chipSize start size)
      (fun _ made' _ => ErasesAt good (SectorBytes chipSize (start.toNat / 4096) (roundsOf size)) made made')
      (fun _ => True) made flash := by
  obtain ⟨rounds, counted, num, count, wraps⟩ := rounds_of_size whole.2
  have all : rounds + 1 = roundsOf size := by
    unfold roundsOf
    split
    · rename_i empty
      exact wraps empty
    · rename_i nonempty
      exact count nonempty
  have aligned : ¬ (start.toNat % Boot.SPI_FLASH_SEC_SIZE ≠ 0 ∨ size.toNat % Boot.SPI_FLASH_SEC_SIZE ≠ 0) := by
    simp only [not_or, not_not]
    exact whole
  unfold spiFlashEraseRange
  rw [if_neg aligned, num, ← sector_number, ← all]
  exact eraseLoop_touches succeeds counted counted

theorem partitionErase_stays_iff {partition : EspPartition} {startAddr size : Word}
    (passes : PassesBounds partition startAddr size) (whole : WholeSectors startAddr.toNat size.toNat)
    (aligned : partition.address.toNat % 4096 = 0) :
    StaysInPartition partition (fun rom => espPartitionEraseRange rom chipSize partition startAddr size) ↔
      ∀ i, SectorBytes chipSize ((partition.address + startAddr).toNat / 4096) (roundsOf size) i →
        ByteInside partition (i % 2 ^ 32) := by
  have sum : (partition.address + startAddr).toNat = (partition.address.toNat + startAddr.toNat) % 2 ^ 32 :=
    BitVec.toNat_add _ _
  have startWhole : startAddr.toNat % 4096 = 0 := whole.1
  have whole' : WholeSectors (partition.address + startAddr).toNat size.toNat :=
    ⟨by change (partition.address + startAddr).toNat % 4096 = 0; omega, whole.2⟩
  constructor
  · intro stays i there
    have touches : wp AnySpiCall (espPartitionEraseRange exactRom chipSize partition startAddr size)
        (fun _ made' _ => ErasesAt True (SectorBytes chipSize ((partition.address + startAddr).toNat / 4096)
          (roundsOf size)) ⟨0, [], [], []⟩ made') (fun _ => True) ⟨0, [], [], []⟩ fun _ => 0 := by
      rw [partitionErase_of_passes passes whole]
      exact eraseRange_touches (fun _ _ _ _ => rfl) whole'
    exact stays exactRom 0 (fun _ => 0) _ (touches.ends.covers trivial i there)
  · intro inside rom calls flash x touched
    have touches : wp AnySpiCall (espPartitionEraseRange rom chipSize partition startAddr size)
        (fun _ made' _ => ErasesAt False (SectorBytes chipSize ((partition.address + startAddr).toNat / 4096)
          (roundsOf size)) ⟨calls, [], [], []⟩ made') (fun _ => True) ⟨calls, [], [], []⟩ flash := by
      rw [partitionErase_of_passes passes whole]
      exact eraseRange_touches (fun never => never.elim) whole'
    rcases touches.ends.among x touched with ⟨op, none, _⟩ | ⟨i, there, rfl⟩
    · cases none
    · exact inside i there

theorem sectors_inside_iff {address psize offset size a c n : Nat} (aligned : address % 4096 = 0)
    (startWhole : offset % 4096 = 0) (sizeWhole : size % 4096 = 0) (sum : a = (address + offset) % 2 ^ 32)
    (chip : c < 2 ^ 20) (fits : offset < 2 ^ 32) (starts : offset ≤ psize)
    (ends : (offset + size) % 2 ^ 32 ≤ psize) (small : size < 2 ^ 32)
    (rounds : (size = 0 ∧ n = 2 ^ 32) ∨ (0 < size ∧ n = size / 4096)) :
    (∀ i, a / 4096 ≤ i / 4096 ∧ i / 4096 < a / 4096 + n ∧ i / 4096 < c →
        address ≤ i % 2 ^ 32 ∧ i % 2 ^ 32 < address + psize) ↔
      c ≤ a / 4096 ∨ (address + offset < 2 ^ 32 ∧ ((0 < size ∧ offset + size ≤ psize) ∨ c * 4096 ≤ address + psize)) := by
  constructor
  · intro inside
    rcases Nat.lt_or_ge (a / 4096) c with onChip | beyond
    · right
      have first := (inside a ⟨Nat.le_refl _, by omega, onChip⟩).1
      have addressed : address + offset < 2 ^ 32 := by omega
      refine ⟨addressed, ?_⟩
      rw [Nat.mod_eq_of_lt addressed] at sum
      by_cases exact_ : 0 < size ∧ offset + size ≤ psize
      · exact Or.inl exact_
      · -- The last sector of the chip is erased.
        right
        have lastSector : (c * 4096 - 1) / 4096 = c - 1 := by omega
        have last := (inside (c * 4096 - 1) ⟨by omega, by omega, by omega⟩).2
        omega
    · exact Or.inl beyond
  · rintro (beyond | ⟨addressed, ends'⟩) i ⟨low, high, onChip⟩
    · omega
    · rw [Nat.mod_eq_of_lt addressed] at sum
      have here : i % 2 ^ 32 = i := Nat.mod_eq_of_lt (by omega)
      rw [here]
      refine ⟨by omega, ?_⟩
      rcases ends' with ⟨nonempty, within⟩ | chipEnds
      · omega
      · omega

theorem partitionErase_inside_iff (chipSize : Word) (partition : EspPartition) (startAddr size : Word) :
    StaysInPartition partition (fun rom => espPartitionEraseRange rom chipSize partition startAddr size) ↔
      ErasesInside chipSize partition startAddr size := by
  unfold ErasesInside
  by_cases accepted : PassesBounds partition startAddr size ∧ WholeSectors startAddr.toNat size.toNat
  · obtain ⟨passes, whole⟩ := accepted
    rw [or_iff_right (not_not_intro passes), or_iff_right (not_not_intro whole)]
    by_cases aligned : partition.address.toNat % Boot.SPI_FLASH_SEC_SIZE = 0
    · rw [or_iff_right (not_not_intro aligned)]
      change partition.address.toNat % 4096 = 0 at aligned
      rw [partitionErase_stays_iff passes whole aligned]
      have sum : (partition.address + startAddr).toNat = (partition.address.toNat + startAddr.toNat) % 2 ^ 32 :=
        BitVec.toNat_add _ _
      have startWhole : startAddr.toNat % 4096 = 0 := whole.1
      have sizeWhole : size.toNat % 4096 = 0 := whole.2
      have chip := chip_sectors chipSize
      have starts : startAddr.toNat ≤ partition.size.toNat := BitVec.le_def.mp passes.1
      have ends : (startAddr.toNat + size.toNat) % 2 ^ 32 ≤ partition.size.toNat := by
        have le := BitVec.le_def.mp passes.2
        rwa [BitVec.toNat_add] at le
      have nonempty : size ≠ 0 ↔ 0 < size.toNat :=
        ⟨fun given => Nat.pos_of_ne_zero (toNat_ne_zero given), fun positive zero => by subst zero; cases positive⟩
      have rounds : (size.toNat = 0 ∧ roundsOf size = 2 ^ 32) ∨
          (0 < size.toNat ∧ roundsOf size = size.toNat / 4096) := by
        unfold roundsOf
        by_cases empty : size = 0
        · exact Or.inl ⟨congrArg BitVec.toNat empty, if_pos empty⟩
        · exact Or.inr ⟨nonempty.mp empty, if_neg empty⟩
      rw [nonempty]
      exact sectors_inside_iff aligned startWhole sizeWhole sum chip startAddr.isLt starts ends size.isLt rounds
    · have odd : partition.address.toNat % 4096 ≠ 0 := aligned
      have sum : (partition.address + startAddr).toNat = (partition.address.toNat + startAddr.toNat) % 2 ^ 32 :=
        BitVec.toNat_add _ _
      have startWhole : startAddr.toNat % 4096 = 0 := whole.1
      refine iff_of_true (stays_of_refused ?_) (Or.inl aligned)
      intro rom calls flash
      rw [partitionErase_of_passes passes whole]
      unfold spiFlashEraseRange
      have unaligned : (partition.address + startAddr).toNat % Boot.SPI_FLASH_SEC_SIZE ≠ 0 := by
        change (partition.address + startAddr).toNat % 4096 ≠ 0
        omega
      rw [if_pos (Or.inl unaligned)]
      rfl
  · refine iff_of_true (stays_of_refused ?_) ?_
    · intro rom calls flash
      obtain ⟨e, refused⟩ : ∃ e, espPartitionEraseRange rom chipSize partition startAddr size ⟨calls, [], [], []⟩ flash =
          ⟨.err e, ⟨calls, [], [], []⟩, flash, []⟩ := partitionErase_of_refused accepted
      rw [refused]
    · by_cases passes : PassesBounds partition startAddr size
      · exact Or.inr (Or.inl fun whole => accepted ⟨passes, whole⟩)
      · exact Or.inl passes

end

/-- The calls for a partition touch only its bytes under these conditions and no others. -/
theorem partition_access_inside_iff (partition : EspPartition) (offset size : Word) :
    (∀ dst ram, StaysInPartition partition (fun rom => espPartitionRead rom partition offset dst size ram) ↔
      ReadsInside partition offset dst size) ∧
      (∀ chipSize src data, (∀ fuel, StaysInPartition partition
          (fun rom => espPartitionWrite rom fuel chipSize partition offset src data size.toNat)) ↔
        WritesInside chipSize partition offset src size) ∧
      ∀ chipSize, StaysInPartition partition (fun rom => espPartitionEraseRange rom chipSize partition offset size) ↔
        ErasesInside chipSize partition offset size :=
  ⟨fun dst ram => partitionRead_inside_iff partition offset dst size ram,
    fun chipSize src data => partitionWrite_inside_iff chipSize partition offset src data size,
    fun chipSize => partitionErase_inside_iff chipSize partition offset size⟩

def nvsPartition : EspPartition := ⟨0x01, 0x02, 0x9000, 0x4000, [], false⟩

/-- The sum of offset `0x1000` and size `0xFFFFF000` wraps to zero, and the rest of the chip is erased. -/
theorem wrapped_erase_leaves_partition :
    ¬ StaysInPartition nvsPartition
      (fun rom => espPartitionEraseRange rom 0x100000 nvsPartition 0x1000 0xFFFFF000) := by
  rw [partitionErase_inside_iff]
  unfold ErasesInside PassesBounds Addressed InPartition
  decide

end EspFirmware.Proof.Boot
