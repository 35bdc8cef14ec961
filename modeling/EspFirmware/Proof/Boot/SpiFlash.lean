import EspFirmware.Spec.SpiFlash

/-!
Flash access through the bounce buffer and in pages, as access to bytes.
-/

namespace EspFirmware.Proof.Boot
open EspFirmware.SpiFlash EspFirmware.Spec EspFirmware.Lib EspFirmware.Lib.Prog
open EspFirmware.Boot (EspErr Flash)
open EspFirmware.Nvs (Byte Word)

/-! ## Programmed bytes -/

section
variable (a : Nat) (flash : Flash)

@[simp] theorem programBytes_nil : programBytes a [] flash = flash := by
  funext x
  rw [programBytes, if_neg]
  simp only [List.length_nil]
  omega

theorem programBytes_append (xs ys : List Byte) :
    programBytes a (xs ++ ys) flash = programBytes (a + xs.length) ys (programBytes a xs flash) := by
  funext x
  simp only [programBytes, List.length_append, List.getD_eq_getElem?_getD]
  by_cases early : a ≤ x ∧ x < a + xs.length
  · rw [if_pos (by omega), if_neg (by omega), if_pos early, List.getElem?_append_left (by omega)]
  · rw [if_neg early]
    by_cases late : a + xs.length ≤ x ∧ x < a + xs.length + ys.length
    · rw [if_pos (by omega), if_pos late, List.getElem?_append_right (by omega), Nat.sub_sub]
    · rw [if_neg (by omega), if_neg late]

theorem programBytes_other {bytes : List Byte} {x : Nat} (outside : x < a ∨ a + bytes.length ≤ x) :
    programBytes a bytes flash x = flash x := by
  rw [programBytes, if_neg (by omega)]

theorem programBytes_load (n : Nat) : programBytes a (flash.load a n) flash = flash := by
  funext x
  rw [programBytes, Lib.Memory.length_load]
  split
  · rename_i inside
    have here : a + (x - a) = x := by omega
    rw [Lib.Memory.load, List.getD_eq_getElem?_getD, List.getElem?_map, List.getElem?_range (by omega), Option.map_some,
      Option.getD_some, here, BitVec.and_self]
  · rfl

theorem load_programBytes_after (bytes : List Byte) {b n : Nat} (after : a + bytes.length ≤ b) :
    Lib.Memory.load (programBytes a bytes flash) b n = flash.load b n := by
  apply Lib.Memory.load_congr
  intro x low high
  exact programBytes_other a flash (by omega)

theorem programBytes_padded (before n : Nat) (bytes : List Byte) :
    programBytes a (flash.load a before ++ bytes ++ flash.load (a + before + bytes.length) n) flash =
      programBytes (a + before) bytes flash := by
  rw [programBytes_append, programBytes_append, programBytes_load, Lib.Memory.length_load, List.length_append,
    Lib.Memory.length_load, ← Nat.add_assoc, ← load_programBytes_after (a + before) flash bytes (Nat.le_refl _),
    programBytes_load]

theorem andWritten_iff {flash' : Flash} {dest size : Nat} {data : Lib.Memory} :
    AndWritten flash flash' dest size data ↔ flash' = programBytes dest (data.load 0 size) flash := by
  unfold AndWritten
  rw [funext_iff]
  apply forall_congr'
  intro x
  rw [programBytes, Lib.Memory.length_load]
  split
  · rename_i inside
    rw [Lib.Memory.load, List.getD_eq_getElem?_getD, List.getElem?_map, List.getElem?_range (by omega), Option.map_some,
      Option.getD_some, Nat.zero_add]
  · exact Iff.rfl

end

theorem take_load (m : Lib.Memory) (b : Nat) {i n : Nat} (part : i ≤ n) : (m.load b n).take i = m.load b i := by
  rw [← Nat.add_sub_cancel' part, Lib.Memory.load_append, List.take_left' (Lib.Memory.length_load _ _ _)]

theorem drop_load (m : Lib.Memory) (b : Nat) {i n : Nat} (part : i ≤ n) :
    (m.load b n).drop i = m.load (b + i) (n - i) := by
  have parts := Lib.Memory.load_append m b i (n - i)
  rw [Nat.add_sub_cancel' part] at parts
  rw [parts, List.drop_left' (Lib.Memory.length_load _ _ _)]

theorem store_append (m : Lib.Memory) (b : Nat) (xs ys : List Byte) :
    m.store b (xs ++ ys) = (m.store b xs).store (b + xs.length) ys := by
  funext x
  simp only [Lib.Memory.store, List.length_append, List.getD_eq_getElem?_getD]
  by_cases late : b + xs.length ≤ x ∧ x < b + xs.length + ys.length
  · rw [if_pos (by omega), if_pos late, List.getElem?_append_right (by omega), Nat.sub_sub]
  · rw [if_neg late]
    by_cases early : b ≤ x ∧ x < b + xs.length
    · rw [if_pos (by omega), if_pos early, List.getElem?_append_left (by omega)]
    · rw [if_neg (by omega), if_neg early]

theorem store_nothing (m m' : Lib.Memory) (b c : Nat) : m.store b (m'.load c 0) = m := by
  funext x
  exact Lib.Memory.store_other m (by change x < b ∨ b + 0 ≤ x; omega)

theorem load_bufferOf (bytes : List Byte) : (bufferOf bytes).load 0 bytes.length = bytes :=
  Lib.Memory.load_store _ 0 bytes

/-! ## Pieces -/

theorem pieceLength {size len : Nat} (more : size > 0)
    (cut : (if size ≥ SPI_READ_BUF_MAX then SPI_READ_BUF_MAX else size) = len) :
    len ≤ size ∧ 0 < len ∧ len ≤ 64 ∧ (len < size → len = 64) := by
  split at cut
  · rename_i large
    change 64 ≤ size at large
    change 64 = len at cut
    omega
  · rename_i less
    change ¬ 64 ≤ size at less
    omega

theorem flashAlign_bounds (n : Nat) : FLASH_ALIGN n % 4 = 0 ∧ n ≤ FLASH_ALIGN n ∧ FLASH_ALIGN n < n + 4 := by
  change (n + 3) / 4 * 4 % 4 = 0 ∧ n ≤ (n + 3) / 4 * 4 ∧ (n + 3) / 4 * 4 < n + 4
  omega

theorem flashAlignBefore_eq {addr : Nat} (unaligned : addr % 4 ≠ 0) : FLASH_ALIGN_BEFORE addr = addr - addr % 4 := by
  change (addr + 3) / 4 * 4 - 4 = addr - addr % 4
  omega

theorem headLength {addr size wbytes : Nat} (nonempty : size ≠ 0)
    (cut : (if FLASH_ALIGN_BYTES - addr % 4 > size then size else FLASH_ALIGN_BYTES - addr % 4) = wbytes) :
    wbytes ≤ size ∧ 0 < wbytes ∧ addr % 4 + wbytes ≤ 4 ∧ (wbytes < size → (addr + wbytes) % 4 = 0) := by
  split at cut
  · rename_i large
    change 4 - addr % 4 > size at large
    omega
  · rename_i less
    change ¬ 4 - addr % 4 > size at less
    change 4 - addr % 4 = wbytes at cut
    omega

/-! ## Programs on the chip -/

abbrev AnySpiCall : Flash → List Flash → Prop := fun _ _ => True

/-- The program ends with a value or with a flash error, or its fuel is not enough. Where it ends with the value the
bytes are programmed, its program operations are each in a page, and a ROM that does not fail makes it end with the
value. -/
structure SpiEnds {α : Type} (rom : SpiRom) (enough : Prop) (a : Nat) (bytes : List Byte) (value : α) (made : SpiCalls)
    (flash : Flash) (o : Outcome EspErr α) (made' : SpiCalls) (flash' : Flash) : Prop where
  ends : enough → o = .ok value ∨ o = .err .flashOpFail
  programmed : ∀ v, o = .ok v → v = value ∧ flash' = programBytes a bytes flash
  pages : ∃ ops, made'.programs = made.programs ++ ops ∧ ∀ op ∈ ops, InPage op
  succeeds : enough → RomSucceeds rom → o = .ok value

abbrev SpiDoes {α : Type} (rom : SpiRom) (enough : Prop) (p : SpiProg α) (a : Nat) (bytes : List Byte) (value : α)
    (made : SpiCalls) (flash : Flash) : Prop :=
  wp AnySpiCall p (SpiEnds rom enough a bytes value made flash) (fun _ => True) made flash

section
variable {α β : Type} {rom : SpiRom} {enough : Prop} {made : SpiCalls} {flash : Flash} {a : Nat}

theorem spiDoes_pure (value : α) : SpiDoes rom enough (pure value) a [] value made flash := by
  refine wp_pure value ⟨fun _ => Or.inl rfl, ?_, ⟨[], ?_, ?_⟩, fun _ _ => rfl⟩
  · intro v ok
    cases ok
    exact ⟨rfl, (programBytes_nil a flash).symm⟩
  · exact (List.append_nil _).symm
  · intro op none
    cases none

theorem spiDoes_fault {bytes : List Byte} (value : α) (short : ¬ enough) :
    SpiDoes rom enough Prog.fault a bytes value made flash := by
  refine wp_still rfl ⟨fun fit => absurd fit short, ?_, ⟨[], (List.append_nil _).symm, ?_⟩, fun fit => absurd fit short⟩
  · intro v ok
    cases ok
  · intro op none
    cases none

theorem spiDoes_bind {p : SpiProg α} {f : α → SpiProg β} {xs ys : List Byte} {v : α} {w : β}
    (first : SpiDoes rom enough p a xs v made flash)
    (later : ∀ made, SpiDoes rom enough (f v) (a + xs.length) ys w made (programBytes a xs flash)) :
    SpiDoes rom enough (p >>= f) a (xs ++ ys) w made flash := by
  refine wp_bind (wp_mono first ?_ fun _ stop => stop)
  intro o made' flash' done
  obtain ⟨ops, listed, inPages⟩ := done.pages
  cases o with
  | ok u =>
      obtain ⟨same, after⟩ := done.programmed u rfl
      subst same after
      refine wp_mono (later made') ?_ fun _ stop => stop
      intro o' made'' flash'' done'
      obtain ⟨ops', listed', inPages'⟩ := done'.pages
      refine ⟨done'.ends, ?_, ⟨ops ++ ops', ?_, ?_⟩, done'.succeeds⟩
      · intro u ok
        obtain ⟨same, after⟩ := done'.programmed u ok
        exact ⟨same, by rw [after, programBytes_append]⟩
      · rw [listed', listed, List.append_assoc]
      · intro op member
        rcases List.mem_append.mp member with early | late
        · exact inPages op early
        · exact inPages' op late
  | err e =>
      refine ⟨?_, ?_, ⟨ops, listed, inPages⟩, ?_⟩
      · intro fit
        rcases done.ends fit with ok | failed
        · cases ok
        · cases failed
          exact Or.inr rfl
      · intro u ok
        cases ok
      · intro fit succeeds
        cases done.succeeds fit succeeds
  | fault =>
      refine ⟨?_, ?_, ⟨ops, listed, inPages⟩, ?_⟩
      · intro fit
        rcases done.ends fit with ok | failed
        · cases ok
        · cases failed
      · intro u ok
        cases ok
      · intro fit succeeds
        cases done.succeeds fit succeeds

theorem spiDoes_congr {p : SpiProg α} {b : Nat} {xs ys : List Byte} {v : α}
    (run : SpiDoes rom enough p a xs v made flash) (same : programBytes a xs flash = programBytes b ys flash) :
    SpiDoes rom enough p b ys v made flash := by
  refine wp_mono run ?_ fun _ stop => stop
  intro o made' flash' done
  refine ⟨done.ends, ?_, done.pages, done.succeeds⟩
  intro u ok
  obtain ⟨value, after⟩ := done.programmed u ok
  exact ⟨value, after.trans same⟩

theorem programPages_succ {target : Nat} {src : Lib.Memory} {pgmNum fuel : Nat} {i : Byte} {pgmLen : Nat}
    (more : i.toNat < pgmNum) (word : pgmLen % 4 = 0) (small : target + pgmLen < 2 ^ 32)
    (short : pgmLen + 256 < 2 ^ 32) :
    programPages rom target src pgmNum (fuel + 1) i pgmLen = (do
      spiFlashWriteRaw rom (target + pgmLen) (src.load pgmLen 256)
      programPages rom target src pgmNum fuel (i + 1) (pgmLen + 256)) := by
  have address : (target + pgmLen) % 2 ^ 32 = target + pgmLen := Nat.mod_eq_of_lt small
  have next : (pgmLen + 256) % 2 ^ 32 = pgmLen + 256 := Nat.mod_eq_of_lt short
  have offset : pgmLen / 4 * 4 = pgmLen := by omega
  rw [programPages, if_pos more, address, next, offset]

variable (works : RomWorks rom)
include works

theorem writeRaw_does {bytes : List Byte} (small : a < 2 ^ 32) (aligned : a % 4 = 0) (whole : bytes.length % 4 = 0)
    (page : InPage (a, bytes.length)) : SpiDoes rom enough (spiFlashWriteRaw rom a bytes) a bytes () made flash := by
  unfold spiFlashWriteRaw
  simp only [Nat.mod_eq_of_lt small]
  refine wp_bind (wp_get (wp_bind (wp_read (wp_bind (wp_modify (wp_bind (wp_write trivial ?_ trivial)))))))
  have listed : made.programs ++ [(a, bytes.length)] = made.programs ++ [(a, bytes.length)] ∧
      ∀ op ∈ [(a, bytes.length)], InPage op := by
    refine ⟨rfl, ?_⟩
    intro op member
    rw [List.mem_singleton.mp member]
    exact page
  by_cases success : (rom.pageProgram made.calls flash a bytes).2 = true
  · rw [if_pos success]
    refine wp_pure () ⟨fun _ => Or.inl rfl, ?_, ⟨_, listed⟩, fun _ _ => rfl⟩
    intro _ _
    exact ⟨rfl, works.programs _ _ _ _ aligned whole page success⟩
  · rw [if_neg success]
    refine wp_throw _ ⟨fun _ => Or.inr rfl, ?_, ⟨_, listed⟩, ?_⟩
    · intro _ ok
      cases ok
    · intro _ succeeds
      exact absurd (succeeds.programs _ _ _ _) success

theorem readRaw_does {n : Nat} (small : a < 2 ^ 32) (aligned : a % 4 = 0) (whole : n % 4 = 0) (b : Nat) :
    SpiDoes rom enough (spiFlashReadRaw rom a n) b [] (flash.load a n) made flash := by
  unfold spiFlashReadRaw
  simp only [Nat.mod_eq_of_lt small]
  refine wp_bind (wp_get (wp_bind (wp_read (wp_bind (wp_modify ?_)))))
  have listed : made.programs = made.programs ++ [] ∧ ∀ op ∈ ([] : List (Nat × Nat)), InPage op := by
    refine ⟨(List.append_nil _).symm, ?_⟩
    intro op none
    cases none
  by_cases success : (rom.readData made.calls flash a n).2 = true
  · rw [if_pos success, works.reads _ _ _ _ aligned whole success]
    refine wp_pure _ ⟨fun _ => Or.inl rfl, ?_, ⟨_, listed⟩, fun _ _ => rfl⟩
    intro v ok
    cases ok
    exact ⟨rfl, (programBytes_nil b flash).symm⟩
  · rw [if_neg success]
    refine wp_throw _ ⟨fun _ => Or.inr rfl, ?_, ⟨_, listed⟩, ?_⟩
    · intro _ ok
      cases ok
    · intro _ succeeds
      exact absurd (succeeds.reads _ _ _ _) success

/-! ## Pages -/

theorem programPages_does {target : Nat} {src : Lib.Memory} {pgmNum : Nat} (few : pgmNum < 2 ^ 8) {rounds : Nat}
    {i : Byte} {pgmLen : Nat} (left : i.toNat + rounds = pgmNum) (boundary : (target + pgmLen) % 256 = 0)
    (word : pgmLen % 4 = 0) (small : target + pgmLen + 256 * rounds ≤ 2 ^ 32) (short : pgmLen + 256 * rounds < 2 ^ 32)
    {fuel : Nat} (fits : enough → rounds < fuel) :
    SpiDoes rom enough (programPages rom target src pgmNum fuel i pgmLen) (target + pgmLen)
      (src.load pgmLen (256 * rounds)) (pgmLen + 256 * rounds) made flash := by
  induction rounds generalizing fuel i pgmLen made flash with
  | zero =>
      cases fuel with
      | zero => exact spiDoes_fault _ fun fit => absurd (fits fit) (Nat.lt_irrefl _)
      | succ fuel =>
          rw [programPages, if_neg (by omega)]
          exact spiDoes_pure _
  | succ rounds ih =>
      cases fuel with
      | zero => exact spiDoes_fault _ fun fit => absurd (fits fit) (Nat.not_lt_zero _)
      | succ fuel =>
          have more : i.toNat < pgmNum := by omega
          rw [Nat.mul_succ, ← Nat.add_assoc] at small short
          have below : target + pgmLen < 2 ^ 32 := by omega
          have next : pgmLen + 256 < 2 ^ 32 := by omega
          have word' : (target + pgmLen) % 4 = 0 := by omega
          have rest : pgmLen + 256 * (rounds + 1) = pgmLen + 256 + 256 * rounds := by omega
          have page : InPage (target + pgmLen, 256) := by
            change (target + pgmLen) % 256 + 256 ≤ 256
            omega
          have small' : target + (pgmLen + 256) + 256 * rounds ≤ 2 ^ 32 := by omega
          have short' : pgmLen + 256 + 256 * rounds < 2 ^ 32 := by omega
          have left' : (i + 1).toNat + rounds = pgmNum := by
            have counted : (i + 1).toNat = i.toNat + 1 := by
              rw [BitVec.toNat_add]
              exact Nat.mod_eq_of_lt (by change i.toNat + 1 < 2 ^ 8; omega)
            rw [counted]
            omega
          have parts : src.load pgmLen (256 * (rounds + 1)) =
              src.load pgmLen 256 ++ src.load (pgmLen + 256) (256 * rounds) := by
            rw [← Lib.Memory.load_append, Nat.mul_succ, Nat.add_comm]
          rw [parts, rest, programPages_succ more word below next]
          refine spiDoes_bind (writeRaw_does works below word' ?_ ?_) ?_
          · rw [Lib.Memory.length_load]
          · rw [Lib.Memory.length_load]
            exact page
          · intro made'
            rw [Lib.Memory.length_load, Nat.add_assoc]
            exact ih left' (by omega) (by omega) small' short' fun fit => Nat.lt_of_succ_lt_succ (fits fit)

theorem program_does {target : Nat} {src : Lib.Memory} {len : Nat} (start : target < 2 ^ 32)
    (aligned : target % 4 = 0) (whole : len % 4 = 0) (small : target + len ≤ 2 ^ 32) (few : (len - (256 - target % 256)) / 256 < 2 ^ 8) {fuel : Nat}
    (fits : enough → 2 ^ 8 < fuel) :
    SpiDoes rom enough (spiFlashProgram rom fuel target src len) target (src.load 0 len) () made flash := by
  unfold spiFlashProgram
  dsimp only
  generalize first : 256 - target % 256 = pgmLen at few ⊢
  by_cases short : len < pgmLen
  · rw [if_pos short]
    have page : InPage (target, len) := by
      change target % 256 + len ≤ 256
      omega
    have length : (src.load 0 len).length = len := Lib.Memory.length_load _ _ _
    exact writeRaw_does works start aligned (by rw [length]; exact whole) (by rw [length]; exact page)
  · rw [if_neg short]
    have boundary : (target + pgmLen) % 256 = 0 := by omega
    have page : InPage (target, pgmLen) := by
      change target % 256 + pgmLen ≤ 256
      omega
    have length : (src.load 0 pgmLen).length = pgmLen := Lib.Memory.length_load _ _ _
    have pages : 256 * ((len - pgmLen) / 256) ≤ len - pgmLen := Nat.mul_div_le _ _
    have remainder : len - pgmLen - 256 * ((len - pgmLen) / 256) < 256 := by omega
    generalize counted : (len - pgmLen) / 256 = rounds at few pages remainder
    have parts : src.load 0 len = src.load 0 pgmLen ++ (src.load pgmLen (256 * rounds) ++
        src.load (pgmLen + 256 * rounds) (len - (pgmLen + 256 * rounds))) := by
      have total : pgmLen + (256 * rounds + (len - (pgmLen + 256 * rounds))) = len := by omega
      have all := Lib.Memory.load_append src 0 pgmLen (256 * rounds + (len - (pgmLen + 256 * rounds)))
      rw [Nat.zero_add, total, Lib.Memory.load_append src pgmLen] at all
      exact all
    rw [parts]
    refine spiDoes_bind (writeRaw_does works start aligned (by rw [length]; omega) (by rw [length]; exact page)) ?_
    intro made'
    rw [length]
    have offset : (pgmLen + 256 * rounds) / 4 * 4 = pgmLen + 256 * rounds := by omega
    have fits' (fit : enough) : rounds < fuel := Nat.lt_trans few (fits fit)
    refine spiDoes_bind (programPages_does works few (by simp) boundary (by omega) (by omega) (by omega) fits') ?_
    intro made''
    have last : (src.load (pgmLen + 256 * rounds) (len - (pgmLen + 256 * rounds))).length =
        len - (pgmLen + 256 * rounds) := Lib.Memory.length_load _ _ _
    rw [Lib.Memory.length_load, offset, Nat.add_assoc]
    by_cases room : target + (pgmLen + 256 * rounds) < 2 ^ 32
    · rw [Nat.mod_eq_of_lt room]
      have lastPage : InPage (target + (pgmLen + 256 * rounds), len - (pgmLen + 256 * rounds)) := by
        change (target + (pgmLen + 256 * rounds)) % 256 + (len - (pgmLen + 256 * rounds)) ≤ 256
        omega
      exact writeRaw_does works room (by omega) (by rw [last]; omega) (by rw [last]; exact lastPage)
    · -- The bytes end at the end of the address space, and nothing is left to program.
      have none : src.load (pgmLen + 256 * rounds) (len - (pgmLen + 256 * rounds)) = [] := by
        apply List.eq_nil_of_length_eq_zero
        omega
      have address : (target + (pgmLen + 256 * rounds)) % 2 ^ 32 = 0 := by
        have top : target + (pgmLen + 256 * rounds) = 2 ^ 32 := by omega
        rw [top, Nat.mod_self]
      rw [none, address]
      exact spiDoes_congr (writeRaw_does works (by decide) rfl rfl (Nat.zero_le _)) (by rw [programBytes_nil, programBytes_nil])

theorem buffer_does (before n total : Nat) {bytes : List Byte} {len : Nat} (length : bytes.length = len)
    (sum : before + len + n = total) (aligned : a % 4 = 0) (whole : total % 4 = 0)
    (room : 0 < total ∧ total ≤ 64) (small : a + total ≤ 2 ^ 32) {fuel : Nat} (fits : enough → 2 ^ 8 < fuel) :
    SpiDoes rom enough (spiFlashProgram rom fuel a (bufferOf (flash.load a before ++ bytes ++
      flash.load (a + before + len) n)) total) (a + before) bytes () made flash := by
  subst length
  have few : (total - (256 - a % 256)) / 256 < 2 ^ 8 := by omega
  refine spiDoes_congr (program_does works (by omega) aligned whole small few fits) ?_
  have loaded := load_bufferOf (flash.load a before ++ bytes ++ flash.load (a + before + bytes.length) n)
  rw [List.length_append, List.length_append, Lib.Memory.length_load, Lib.Memory.length_load, sum] at loaded
  rw [loaded, programBytes_padded]

omit works

/-! ## A counter that wraps -/

abbrev SpiHangs {α : Type} (rom : SpiRom) (p : SpiProg α) (made : SpiCalls) (flash : Flash) : Prop :=
  wp AnySpiCall p (fun o _ _ => (∀ v, o ≠ .ok v) ∧ (RomSucceeds rom → o = .fault)) (fun _ => True) made flash

theorem writeRaw_hangs (address : Nat) (bytes : List Byte) {p : SpiProg α}
    (later : ∀ made flash, SpiHangs rom p made flash) :
    SpiHangs rom (spiFlashWriteRaw rom address bytes >>= fun _ => p) made flash := by
  unfold spiFlashWriteRaw
  refine wp_bind (wp_bind (wp_get (wp_bind (wp_read (wp_bind (wp_modify (wp_bind (wp_write trivial ?_ trivial))))))))
  dsimp only
  by_cases success : (rom.pageProgram made.calls flash (address % 2 ^ 32) bytes).2 = true
  · rw [if_pos success]
    exact wp_pure () (later _ _)
  · rw [if_neg success]
    refine wp_throw _ ⟨?_, fun succeeds => absurd (succeeds.programs _ _ _ _) success⟩
    intro v ok
    cases ok

theorem programPages_hangs {target : Nat} {src : Lib.Memory} {pgmNum : Nat} (many : 2 ^ 8 ≤ pgmNum) (fuel : Nat)
    (i : Byte) (pgmLen : Nat) : SpiHangs rom (programPages rom target src pgmNum fuel i pgmLen) made flash := by
  induction fuel generalizing i pgmLen made flash with
  | zero =>
      refine wp_still rfl ⟨?_, fun _ => rfl⟩
      intro v ok
      cases ok
  | succ fuel ih =>
      rw [programPages, if_pos (Nat.lt_of_lt_of_le i.isLt many)]
      exact writeRaw_hangs _ _ fun made flash => ih _ _

theorem program_hangs {target : Nat} {src : Lib.Memory} {len : Nat}
    (many : 2 ^ 8 ≤ (len - (256 - target % 256)) / 256) (fuel : Nat) :
    SpiHangs rom (spiFlashProgram rom fuel target src len) made flash := by
  unfold spiFlashProgram
  dsimp only
  rw [if_neg (by change ¬ len < 256 - target % 256; omega)]
  refine writeRaw_hangs _ _ fun made flash => wp_bind (wp_mono (programPages_hangs many fuel 0 _) ?_ fun _ stop => stop)
  intro o made' flash' hangs
  cases o with
  | ok v => exact absurd rfl (hangs.1 v)
  | err e =>
      refine ⟨?_, fun succeeds => ?_⟩
      · intro v ok
        cases ok
      · cases hangs.2 succeeds
  | fault =>
      refine ⟨?_, fun _ => rfl⟩
      intro v ok
      cases ok

include works

/-! ## Writing -/

theorem writeLoop_does {fuel : Nat} (fits : enough → 2 ^ 8 < fuel) {data : Lib.Memory} {rounds destAddr off size : Nat}
    (many : size < rounds) (aligned : destAddr % 4 = 0) (inside : destAddr + size < 2 ^ 32) :
    SpiDoes rom enough (writeLoop rom fuel data rounds destAddr off size) destAddr (data.load off size) () made
      flash := by
  induction rounds generalizing destAddr off size made flash with
  | zero => omega
  | succ rounds ih =>
      rw [writeLoop]
      by_cases more : size > 0
      · rw [if_pos more]
        dsimp only
        generalize cut : (if size ≥ SPI_READ_BUF_MAX then SPI_READ_BUF_MAX else size) = len
        obtain ⟨fitting, some, room, full⟩ := pieceLength more cut
        obtain ⟨whole, up, close⟩ := flashAlign_bounds len
        generalize FLASH_ALIGN len = wlen at whole up close ⊢
        have room' : 0 < wlen ∧ wlen ≤ 64 := by omega
        have small : destAddr + wlen ≤ 2 ^ 32 := by omega
        have loaded : (data.load off len).length = len := Lib.Memory.length_load _ _ _
        have rest : data.load off size = data.load off len ++ data.load (off + len) (size - len) := by
          rw [← Lib.Memory.load_append, Nat.add_sub_cancel' fitting]
        -- What fills up the piece is what the flash has behind it.
        have piece (made : SpiCalls) : SpiDoes rom enough (spiFlashProgram rom fuel destAddr (bufferOf
            (data.load off len ++ flash.load (destAddr + len) (wlen - len))) wlen) destAddr
            (data.load off len) () made flash :=
          buffer_does works 0 (wlen - len) wlen loaded (by omega) aligned whole room' small fits
        have later (made : SpiCalls) (flash : Flash) : SpiDoes rom enough
            (writeLoop rom fuel data rounds (destAddr + len) (off + len) (size - len)) (destAddr + len)
            (data.load (off + len) (size - len)) () made flash := by
          by_cases done : size - len = 0
          · rw [done]
            cases rounds with
            | zero => omega
            | succ rounds =>
                rw [writeLoop, if_neg (Nat.lt_irrefl 0)]
                exact spiDoes_pure ()
          · exact ih (by omega) (by omega) (by omega)
        rw [rest, ← List.nil_append (data.load off len ++ _)]
        by_cases short : wlen ≠ len
        · rw [if_pos short]
          have start : destAddr + (wlen - 4) < 2 ^ 32 := by omega
          have word : (destAddr + (wlen - 4)) % 4 = 0 := by omega
          refine spiDoes_bind (readRaw_does works start word rfl destAddr) ?_
          intro made'
          have tail : (flash.load (destAddr + (wlen - 4)) 4).drop (len - (wlen - 4)) =
              flash.load (destAddr + len) (wlen - len) := by
            have place : destAddr + (wlen - 4) + (len - (wlen - 4)) = destAddr + len := by omega
            have count : 4 - (len - (wlen - 4)) = wlen - len := by omega
            rw [drop_load flash _ (by omega), place, count]
          rw [programBytes_nil]
          refine spiDoes_bind (v := ()) ?_ ?_
          · change SpiDoes rom enough (spiFlashProgram rom fuel destAddr (bufferOf (data.load off len ++
              (flash.load (destAddr + (wlen - 4)) 4).drop (len - (wlen - 4)))) wlen) destAddr _ () made' flash
            rw [tail]
            exact piece made'
          · intro made''
            rw [loaded]
            exact later made'' _
        · have same : wlen = len := Decidable.not_not.mp short
          rw [if_neg short]
          refine spiDoes_bind (spiDoes_pure []) ?_
          intro made'
          rw [programBytes_nil]
          refine spiDoes_bind (v := ()) ?_ ?_
          · have none : flash.load (destAddr + len) (wlen - len) = ([] : List Byte).drop (len - (wlen - 4)) := by
              rw [same, Nat.sub_self, List.drop_nil]
              rfl
            have exactly := piece made'
            rw [none] at exactly
            exact exactly
          · intro made''
            rw [loaded]
            exact later made'' _
      · have none : size = 0 := by omega
        rw [if_neg more, none]
        exact spiDoes_pure ()

theorem spiFlashWrite_does {fuel : Nat} (fits : enough → 2 ^ 8 < fuel) {chipSize : Word} {destAddr src size : Nat}
    {data : Lib.Memory} (given : src ≠ 0) (inside : destAddr + size ≤ chipSize.toNat)
    (few : (NOT_ALIGN destAddr ∨ NOT_ALIGN src ∨ NOT_ALIGN size ∨ IS_FLASH src) ∨
      (size - (256 - destAddr % 256)) / 256 < 2 ^ 8) :
    SpiDoes rom enough (spiFlashWrite rom fuel chipSize destAddr src data size) destAddr (data.load 0 size) () made
      flash := by
  have chip := chipSize.isLt
  have noWrap : (destAddr + size) % 2 ^ 32 = destAddr + size := Nat.mod_eq_of_lt (by omega)
  unfold spiFlashWrite
  by_cases nothing : size = 0
  · rw [if_pos nothing, nothing]
    exact spiDoes_pure ()
  rw [if_neg nothing, if_neg given, noWrap, if_neg (by omega)]
  by_cases bounced : NOT_ALIGN destAddr ∨ NOT_ALIGN src ∨ NOT_ALIGN size ∨ IS_FLASH src
  · rw [if_pos bounced]
    by_cases unaligned : NOT_ALIGN destAddr
    · rw [if_pos unaligned]
      change destAddr % 4 ≠ 0 at unaligned
      dsimp only
      have offset : destAddr - (destAddr - destAddr % 4) = destAddr % 4 := by omega
      rw [flashAlignBefore_eq unaligned, offset]
      change SpiDoes rom enough (spiFlashReadRaw rom (destAddr - destAddr % 4) 4 >>= fun old => _) destAddr _ () made
        flash
      generalize cut : (if FLASH_ALIGN_BYTES - destAddr % 4 > size then size
        else FLASH_ALIGN_BYTES - destAddr % 4) = wbytes
      obtain ⟨fitting, some, room, next⟩ := headLength nothing cut
      have loaded : (data.load 0 wbytes).length = wbytes := Lib.Memory.length_load _ _ _
      have rest : data.load 0 size = [] ++ (data.load 0 wbytes ++ data.load wbytes (size - wbytes)) := by
        have parts := Lib.Memory.load_append data 0 wbytes (size - wbytes)
        rw [Nat.add_sub_cancel' fitting, Nat.zero_add] at parts
        exact parts
      rw [rest]
      refine spiDoes_bind (readRaw_does works (by omega) (by omega) rfl destAddr) ?_
      intro made'
      rw [programBytes_nil]
      refine spiDoes_bind (v := ()) ?_ ?_
      · have place : destAddr - destAddr % 4 + destAddr % 4 = destAddr := by omega
        have old : (flash.load (destAddr - destAddr % 4) 4).take (destAddr % 4) =
            flash.load (destAddr - destAddr % 4) (destAddr % 4) := take_load flash _ (by omega)
        have behind : (flash.load (destAddr - destAddr % 4) 4).drop (destAddr % 4 + wbytes) =
            flash.load (destAddr - destAddr % 4 + destAddr % 4 + wbytes) (4 - (destAddr % 4 + wbytes)) := by
          rw [drop_load flash _ room, Nat.add_assoc]
        have filled : SpiDoes rom enough (spiFlashProgram rom fuel (destAddr - destAddr % 4) _ 4)
            (destAddr - destAddr % 4 + destAddr % 4) (data.load 0 wbytes) () made' flash :=
          buffer_does works (destAddr % 4) (4 - (destAddr % 4 + wbytes)) 4 loaded (by omega) (by omega) rfl (by omega)
            (by omega) fits
        rw [← old, ← behind, place] at filled
        exact filled
      · intro made''
        rw [loaded]
        by_cases done : size - wbytes = 0
        · rw [done, writeLoop, if_neg (Nat.lt_irrefl 0)]
          exact spiDoes_pure ()
        · have below : destAddr + wbytes + (size - wbytes) < 2 ^ 32 := by omega
          exact writeLoop_does works fits (by omega) (next (by omega)) below
    · rw [if_neg unaligned]
      have aligned : destAddr % 4 = 0 := Decidable.not_not.mp unaligned
      exact writeLoop_does works fits (Nat.lt_succ_self size) aligned (by omega)
  · rw [if_neg bounced]
    simp only [not_or, not_not] at bounced
    obtain ⟨aligned, _, whole, _⟩ := bounced
    have few' := few.resolve_left fun bounce => by
      rcases bounce with dest | source | odd | mapped
      all_goals contradiction
    exact program_does works (by omega) aligned whole (by omega) few' fits

/-! ## Reading -/

theorem readLoop_does {rounds srcAddr tmp size : Nat} {ram : Lib.Memory} (many : size < rounds)
    (aligned : srcAddr % 4 = 0) (inside : srcAddr + size ≤ 2 ^ 32) :
    SpiDoes rom enough (readLoop rom rounds srcAddr tmp size ram) a [] (ram.store tmp (flash.load srcAddr size))
      made flash := by
  induction rounds generalizing srcAddr tmp size ram made with
  | zero => omega
  | succ rounds ih =>
      rw [readLoop]
      by_cases more : size ≠ 0
      · rw [if_pos more]
        dsimp only
        generalize cut : (if size ≥ SPI_READ_BUF_MAX then SPI_READ_BUF_MAX else size) = len
        obtain ⟨fitting, some, room, full⟩ := pieceLength (Nat.pos_of_ne_zero more) cut
        obtain ⟨whole, up, close⟩ := flashAlign_bounds len
        have stored : ram.store tmp (flash.load srcAddr size) =
            (ram.store tmp (flash.load srcAddr len)).store (tmp + len)
              (flash.load (srcAddr + len) (size - len)) := by
          have parts := Lib.Memory.load_append flash srcAddr len (size - len)
          rw [Nat.add_sub_cancel' fitting] at parts
          rw [parts, store_append, Lib.Memory.length_load]
        rw [stored, ← List.append_nil ([] : List Byte)]
        refine spiDoes_bind (readRaw_does works (by omega) aligned whole a) ?_
        intro made'
        rw [programBytes_nil, take_load flash srcAddr up]
        by_cases done : size - len = 0
        · rw [done]
          cases rounds with
          | zero => omega
          | succ rounds =>
              rw [readLoop, if_neg (not_not_intro rfl)]
              rw [store_nothing]
              exact spiDoes_pure _
        · exact ih (by omega) (by omega) (by omega)
      · have none : size = 0 := Decidable.not_not.mp more
        rw [if_neg more, none, store_nothing]
        exact spiDoes_pure ram

theorem spiFlashRead_does {srcAddr dest size : Nat} {ram : Lib.Memory} (given : dest ≠ 0)
    (inside : srcAddr + size ≤ 2 ^ 32) :
    SpiDoes rom enough (spiFlashRead rom srcAddr dest size ram) a [] (ram.store dest (flash.load srcAddr size))
      made flash := by
  unfold spiFlashRead
  by_cases nothing : size = 0
  · rw [if_pos nothing, nothing, store_nothing]
    exact spiDoes_pure ram
  rw [if_neg nothing, if_neg given]
  by_cases bounced : NOT_ALIGN srcAddr ∨ NOT_ALIGN dest ∨ NOT_ALIGN size
  · rw [if_pos bounced]
    by_cases unaligned : NOT_ALIGN srcAddr
    · rw [if_pos unaligned]
      change srcAddr % 4 ≠ 0 at unaligned
      dsimp only
      have offset : srcAddr - (srcAddr - srcAddr % 4) = srcAddr % 4 := by omega
      rw [flashAlignBefore_eq unaligned, offset]
      change SpiDoes rom enough (spiFlashReadRaw rom (srcAddr - srcAddr % 4) 4 >>= fun buf => _) a _ _ made flash
      generalize cut : (if FLASH_ALIGN_BYTES - srcAddr % 4 > size then size
        else FLASH_ALIGN_BYTES - srcAddr % 4) = wbytes
      obtain ⟨fitting, some, room, next⟩ := headLength nothing cut
      have place : srcAddr - srcAddr % 4 + srcAddr % 4 = srcAddr := by omega
      have stored : ram.store dest (flash.load srcAddr size) =
          (ram.store dest (flash.load srcAddr wbytes)).store (dest + wbytes)
            (flash.load (srcAddr + wbytes) (size - wbytes)) := by
        have parts := Lib.Memory.load_append flash srcAddr wbytes (size - wbytes)
        rw [Nat.add_sub_cancel' fitting] at parts
        rw [parts, store_append, Lib.Memory.length_load]
      rw [stored, ← List.append_nil ([] : List Byte)]
      refine spiDoes_bind (readRaw_does works (by omega) (by omega) rfl a) ?_
      intro made'
      rw [programBytes_nil, drop_load flash _ (Nat.le_of_add_right_le room), place, take_load flash _ (by omega)]
      by_cases done : size - wbytes = 0
      · rw [done, store_nothing, readLoop, if_neg (not_not_intro rfl)]
        exact spiDoes_pure _
      · exact readLoop_does works (by omega) (next (by omega)) (by omega)
    · rw [if_neg unaligned]
      exact readLoop_does works (Nat.lt_succ_self size) (Decidable.not_not.mp unaligned) inside
  · rw [if_neg bounced]
    simp only [not_or, not_not] at bounced
    obtain ⟨aligned, _, whole⟩ := bounced
    rw [← List.append_nil ([] : List Byte)]
    refine spiDoes_bind (readRaw_does works (by omega) aligned whole a) ?_
    intro made'
    exact spiDoes_pure _

omit works

abbrev SpiReturns {α : Type} (p : SpiProg α) (made : SpiCalls) (flash : Flash) : Prop :=
  wp AnySpiCall p (fun o _ _ => o ≠ .fault) (fun _ => True) made flash

theorem spiReturns_pure (value : α) : SpiReturns (pure value) made flash := by
  refine wp_pure value ?_
  intro fault
  cases fault

theorem readRaw_returns {n : Nat} {f : List Byte → SpiProg α} (later : ∀ bytes made, SpiReturns (f bytes) made flash) :
    SpiReturns (spiFlashReadRaw rom a n >>= f) made flash := by
  unfold spiFlashReadRaw
  refine wp_bind (wp_bind (wp_get (wp_bind (wp_read (wp_bind (wp_modify ?_))))))
  dsimp only
  split
  · exact wp_pure _ (later _ _)
  · refine wp_throw _ ?_
    intro fault
    cases fault

theorem readLoop_returns {rounds srcAddr tmp size : Nat} {ram : Lib.Memory} (many : size < rounds) :
    SpiReturns (readLoop rom rounds srcAddr tmp size ram) made flash := by
  induction rounds generalizing srcAddr tmp size ram made with
  | zero => omega
  | succ rounds ih =>
      rw [readLoop]
      by_cases more : size ≠ 0
      · rw [if_pos more]
        dsimp only
        generalize cut : (if size ≥ SPI_READ_BUF_MAX then SPI_READ_BUF_MAX else size) = len
        obtain ⟨fitting, positive, _⟩ := pieceLength (Nat.pos_of_ne_zero more) cut
        refine readRaw_returns ?_
        intro bytes made'
        exact ih (by omega)
      · rw [if_neg more]
        exact spiReturns_pure ram

theorem spiFlashRead_returns {srcAddr dest size : Nat} {ram : Lib.Memory} (given : dest ≠ 0) :
    SpiReturns (spiFlashRead rom srcAddr dest size ram) made flash := by
  unfold spiFlashRead
  by_cases nothing : size = 0
  · rw [if_pos nothing]
    exact spiReturns_pure ram
  · rw [if_neg nothing, if_neg given]
    split
    · split
      · refine readRaw_returns ?_
        intro bytes made'
        exact readLoop_returns (by omega)
      · exact readLoop_returns (Nat.lt_succ_self size)
    · refine readRaw_returns ?_
      intro bytes made'
      exact spiReturns_pure _

theorem spiFlashWrite_hangs {chipSize : Word} {destAddr src size : Nat} {data : Lib.Memory} (given : src ≠ 0)
    (inside : destAddr + size ≤ chipSize.toNat)
    (direct : ¬ (NOT_ALIGN destAddr ∨ NOT_ALIGN src ∨ NOT_ALIGN size ∨ IS_FLASH src))
    (many : 2 ^ 8 ≤ (size - (256 - destAddr % 256)) / 256) (fuel : Nat) :
    SpiHangs rom (spiFlashWrite rom fuel chipSize destAddr src data size) made flash := by
  have chip := chipSize.isLt
  have noWrap : (destAddr + size) % 2 ^ 32 = destAddr + size := Nat.mod_eq_of_lt (by omega)
  have some : size ≠ 0 := by omega
  unfold spiFlashWrite
  rw [if_neg some, if_neg given, noWrap, if_neg (by omega), if_neg direct]
  exact program_hangs many fuel

end

theorem filledFrom_store (flash : Flash) (src : Nat) (ram : Lib.Memory) (dest size : Nat) :
    FilledFrom flash src ram (ram.store dest (flash.load src size)) dest size := by
  intro x
  rw [Lib.Memory.store, Lib.Memory.length_load]
  split
  · rename_i inside
    rw [Lib.Memory.load, List.getD_eq_getElem?_getD, List.getElem?_map, List.getElem?_range (by omega)]
    rfl
  · rfl

/-! ## Bytes -/

theorem write_of_null {rom : SpiRom} {fuel : Nat} {chipSize : Word} {dest : Nat} {data : Lib.Memory} {size : Nat}
    {made : SpiCalls} {flash : Flash} :
    spiFlashWrite rom fuel chipSize dest 0 data size made flash =
      if size = 0 then ⟨.ok (), made, flash, []⟩ else ⟨.err .flashOpFail, made, flash, []⟩ := by
  by_cases nothing : size = 0
  · rw [spiFlashWrite, if_pos nothing, if_pos nothing]
    rfl
  · rw [spiFlashWrite, if_neg nothing, if_pos rfl, if_neg nothing]
    rfl

theorem read_to_null {rom : SpiRom} {src size : Nat} {ram : Lib.Memory} {made : SpiCalls} {flash : Flash} :
    spiFlashRead rom src 0 size ram made flash =
      if size = 0 then ⟨.ok ram, made, flash, []⟩ else ⟨.err .flashOpFail, made, flash, []⟩ := by
  by_cases nothing : size = 0
  · rw [spiFlashRead, if_pos nothing, if_pos nothing]
    rfl
  · rw [spiFlashRead, if_neg nothing, if_pos rfl, if_neg nothing]
    rfl

theorem ends_of_does {α : Type} {rom : SpiRom} {p : SpiProg α} {a : Nat} {bytes : List Byte} {value : α}
    {made : SpiCalls} {flash : Flash} {enough : Prop} (does : SpiDoes rom enough p a bytes value made flash)
    (fit : enough) : (p made flash).outcome ≠ .fault := by
  rcases does.ends.ends fit with ok | failed
  · rw [ok]
    intro fault
    cases fault
  · rw [failed]
    intro fault
    cases fault

theorem access_by_bytes {rom : SpiRom} (works : RomWorks rom) (chipSize : Word) : AccessesBytes rom chipSize where
  write := by
    intro fuel dest src data size made flash inside ok
    rw [andWritten_iff]
    by_cases given : src = 0
    · subst given
      rw [write_of_null] at ok ⊢
      split at ok
      · rename_i nothing
        subst nothing
        exact (programBytes_nil dest flash).symm
      · cases ok
    by_cases many : ¬ Bounced dest src size ∧ 2 ^ 8 ≤ (size - (256 - dest % 256)) / 256
    · obtain ⟨direct, uncounted⟩ := many
      have hangs : SpiHangs rom (spiFlashWrite rom fuel chipSize dest src data size) made flash :=
        spiFlashWrite_hangs given inside direct uncounted fuel
      exact absurd ok (hangs.ends.1 ())
    · have few : Bounced dest src size ∨ (size - (256 - dest % 256)) / 256 < 2 ^ 8 := by
        rcases Classical.not_and_iff_not_or_not.mp many with bounced | counted
        · exact Or.inl (Classical.not_not.mp bounced)
        · exact Or.inr (Nat.lt_of_not_le counted)
      have does : SpiDoes rom (2 ^ 8 < fuel) (spiFlashWrite rom fuel chipSize dest src data size) dest
          (data.load 0 size) () made flash := spiFlashWrite_does works id given inside few
      exact (does.ends.programmed () ok).2
  read := by
    intro src dest size ram made flash ram' inside ok
    by_cases given : dest = 0
    · subst given
      rw [read_to_null] at ok ⊢
      split at ok
      · rename_i nothing
        cases ok
        rw [if_pos nothing]
        refine ⟨?_, rfl⟩
        intro x
        rw [if_neg (by omega)]
      · cases ok
    · have does : SpiDoes rom True (spiFlashRead rom src dest size ram) 0 []
          (ram.store dest (flash.load src size)) made flash := spiFlashRead_does works given (by omega)
      obtain ⟨filled, unchanged⟩ := does.ends.programmed ram' ok
      rw [programBytes_nil] at unchanged
      subst filled
      exact ⟨filledFrom_store flash src ram dest size, unchanged⟩
  writeEnds := by
    intro dest src data size made flash inside bounced
    refine ⟨2 ^ 8 + 1, ?_⟩
    intro fuel enough
    by_cases given : src = 0
    · subst given
      rw [write_of_null]
      intro fault
      split at fault
      all_goals cases fault
    · have does : SpiDoes rom True (spiFlashWrite rom fuel chipSize dest src data size) dest (data.load 0 size) () made
          flash := spiFlashWrite_does works (fun _ => enough) given inside (Or.inl bounced)
      exact ends_of_does does trivial
  readEnds := by
    intro src dest size ram made flash
    by_cases given : dest = 0
    · subst given
      rw [read_to_null]
      intro fault
      split at fault
      all_goals cases fault
    · exact (spiFlashRead_returns given).ends

/-! ## The ROM that does not fail -/

def exactRom : SpiRom where
  pageProgram := fun _ flash addr bytes => (programBytes addr bytes flash, true)
  readData := fun _ flash addr len => (flash.load addr len, true)
  eraseSector := fun _ flash sec => (Boot.eraseSector sec flash, true)

theorem exactRom_works : RomWorks exactRom where
  programs := fun _ _ _ _ _ _ _ _ => rfl
  reads := fun _ _ _ _ _ _ _ => rfl

theorem exactRom_succeeds : RomSucceeds exactRom where
  programs := fun _ _ _ _ => rfl
  reads := fun _ _ _ _ => rfl

theorem access_by_bytes_exact : AccessesBytes exactRom 0x100000 := access_by_bytes exactRom_works 0x100000

/-! ## Completion -/

/-- A write that is aligned throughout completes exactly when its pages can be counted. -/
theorem aligned_write_completes_iff {chipSize : Word} {dest src size : Nat} {data : Lib.Memory} (aligned : dest % 4 = 0)
    (source : src % 4 = 0) (whole : size % 4 = 0) (inside : dest + size ≤ chipSize.toNat) :
    CompletesWrite chipSize dest src data size ↔ CountedPages dest src size := by
  constructor
  · intro completes
    by_contra uncounted
    unfold CountedPages at uncounted
    simp only [not_or, Nat.not_lt] at uncounted
    obtain ⟨given, unmapped, many⟩ := uncounted
    have direct : ¬ (NOT_ALIGN dest ∨ NOT_ALIGN src ∨ NOT_ALIGN size ∨ IS_FLASH src) := by
      simp only [not_or, not_not]
      exact ⟨aligned, source, whole, unmapped⟩
    obtain ⟨enough, ends⟩ := completes exactRom exactRom_works ⟨0, [], [], []⟩ fun _ => 0xFF
    have hangs : SpiHangs exactRom (spiFlashWrite exactRom enough chipSize dest src data size) ⟨0, [], [], []⟩ fun _ => 0xFF :=
      spiFlashWrite_hangs given inside direct many enough
    exact (ends enough (Nat.le_refl _)).1 (hangs.ends.2 exactRom_succeeds)
  · intro counted rom works made flash
    refine ⟨2 ^ 8 + 1, ?_⟩
    intro fuel enough
    by_cases given : src = 0
    · subst given
      rw [write_of_null]
      by_cases nothing : size = 0
      · rw [if_pos nothing, nothing]
        refine ⟨?_, ?_, ⟨[], (List.append_nil _).symm, ?_⟩⟩
        · intro fault
          cases fault
        · intro _
          rw [andWritten_iff]
          exact (programBytes_nil dest flash).symm
        · intro op none
          cases none
      · rw [if_neg nothing]
        refine ⟨?_, ?_, ⟨[], (List.append_nil _).symm, ?_⟩⟩
        · intro fault
          cases fault
        · intro ok
          cases ok
        · intro op none
          cases none
    · have few : Bounced dest src size ∨ (size - (256 - dest % 256)) / 256 < 2 ^ 8 := by
        rcases counted with null | mapped | few
        · exact absurd null given
        · exact Or.inl (Or.inr (Or.inr (Or.inr mapped)))
        · exact Or.inr few
      have does : SpiDoes rom True (spiFlashWrite rom fuel chipSize dest src data size) dest (data.load 0 size) () made
          flash := spiFlashWrite_does works (fun _ => enough) given inside few
      refine ⟨ends_of_does does trivial, ?_, does.ends.pages⟩
      intro ok
      rw [andWritten_iff]
      exact (does.ends.programmed () ok).2

theorem aligned_write_completes_256 :
    CompletesWrite 0x100000 0x1000 0x3FFE8000 (fun _ => 0) 256 ↔ CountedPages 0x1000 0x3FFE8000 256 :=
  aligned_write_completes_iff (by decide) (by decide) (by decide) (by decide)

/-- More than 64 KB from RAM are never done. -/
theorem large_write_hangs : ¬ CompletesWrite 0x100000 0x10000 0x3FFE8000 (fun _ => 0) 0x10100 := by
  intro completes
  obtain ⟨enough, ends⟩ := completes exactRom exactRom_works ⟨0, [], [], []⟩ fun _ => 0xFF
  have hangs : SpiHangs exactRom (spiFlashWrite exactRom enough 0x100000 0x10000 0x3FFE8000 (fun _ => 0) 0x10100)
      ⟨0, [], [], []⟩ fun _ => 0xFF :=
    spiFlashWrite_hangs (by decide) (by decide) (by decide) (by decide) enough
  exact (ends enough (Nat.le_refl _)).1 (hangs.ends.2 exactRom_succeeds)

end EspFirmware.Proof.Boot
