import EspFirmware.Proof.Boot.OtaUpdate
import EspFirmware.Proof.Boot.SpiFlash

/-!
An image that is written in pieces behind an erase.
-/

namespace EspFirmware.Proof.Boot
open EspFirmware.Boot EspFirmware.Spec EspFirmware.Lib EspFirmware.Lib.Prog
open EspFirmware.SpiFlash (SpiRom SpiProg programBytes)
open EspFirmware.Nvs (Byte Word)

theorem eraseSectors_done {chipSize : Word} {num sec : Nat} (inside : sec + num ≤ chipSize.toNat / 4096)
    (flash : Flash) :
    flashWp (eraseSectors chipSize num sec) (fun o d => o = .ok () ∧ SectorsErased num sec flash d) (fun _ => True)
      flash := by
  induction num generalizing sec flash with
  | zero => exact wp_pure () ⟨rfl, sectorsErased_zero sec flash⟩
  | succ num ih =>
      have here : ¬ sec ≥ chipSize.toNat / SPI_FLASH_SEC_SIZE := by
        change ¬ sec ≥ chipSize.toNat / 4096
        omega
      unfold eraseSectors
      apply wp_bind
      unfold spiFlashEraseSector
      rw [if_neg here]
      refine wp_write trivial ?_ trivial
      apply wp_mono (ih (by omega) (eraseSector sec flash))
      · rintro o _ d ⟨ok, erased⟩
        exact ⟨ok, erased.cons⟩
      · exact fun _ stop => stop

theorem eraseRange_done {chipSize : Word} {q : EspPartition} {size : Word} (address : q.address.toNat % 4096 = 0)
    (onChip : q.address.toNat + q.size.toNat ≤ chipSize.toNat) (whole : size.toNat % 4096 = 0) (some : 0 < size.toNat)
    (fits : size.toNat ≤ q.size.toNat) (flash : Flash) :
    flashWp (espPartitionEraseRange chipSize q 0 size)
      (fun o d => o = .ok () ∧ SectorsErased (size.toNat / 4096) (q.address.toNat / 4096) flash d) (fun _ => True)
      flash := by
  have notBefore : ¬ (0 : Word) > q.size := by
    rw [gt_iff_lt, BitVec.lt_def]
    exact Nat.not_lt_zero _
  have total : (0 : Word) + size = size := BitVec.zero_add size
  have notBeyond : ¬ (0 : Word) + size > q.size := by
    rw [gt_iff_lt, total, BitVec.lt_def]
    omega
  have wholeSize : ¬ size.toNat % SPI_FLASH_SEC_SIZE ≠ 0 := not_not_intro whole
  have start : q.address + 0 = q.address := BitVec.add_zero _
  have sectors : ¬ (q.address.toNat % SPI_FLASH_SEC_SIZE ≠ 0 ∨ size.toNat % SPI_FLASH_SEC_SIZE ≠ 0) := by
    change ¬ (q.address.toNat % 4096 ≠ 0 ∨ size.toNat % 4096 ≠ 0)
    omega
  have num : size.toNat / SPI_FLASH_SEC_SIZE ≠ 0 := by
    change size.toNat / 4096 ≠ 0
    omega
  unfold espPartitionEraseRange
  rw [if_neg notBefore, if_neg notBeyond, if_neg wholeSize, if_neg (by decide), start]
  unfold spiFlashEraseRange
  rw [if_neg sectors]
  dsimp only
  rw [if_neg num]
  exact eraseSectors_done (by change q.address.toNat / 4096 + size.toNat / 4096 ≤ chipSize.toNat / 4096; omega) flash

theorem wp_onSpi {α : Type} {p : SpiProg α} {post : Outcome EspErr α → OtaOps → Flash → Prop} {ops : OtaOps}
    {flash : Flash}
    (run : wp AnySpiCall p (fun o spi flash => post o { ops with spi } flash) (fun _ => True) ops.spi flash) :
    wp AnySpiCall (OtaOps.onSpi p) post (fun _ => True) ops flash := by
  refine wp_zoom rfl ?_ run
  intro x steps _
  trivial

theorem wp_onFlash {p : FlashProg Unit} {post : Outcome EspErr Unit → OtaOps → Flash → Prop} {ops : OtaOps}
    {flash : Flash} (run : flashWp p (fun o flash => post o ops flash) (fun _ => True) flash) :
    wp AnySpiCall (OtaOps.onFlash p) post (fun _ => True) ops flash := by
  refine wp_zoom rfl ?_ run
  intro x steps _
  trivial

def Streaming (handle : Word) (q : EspPartition) (imageSize : Word) (w : Nat) (ops : OtaOps) : Prop :=
  ∃ rest, ops.entries = ⟨handle, q, imageSize, BitVec.ofNat 32 w⟩ :: rest

theorem Streaming.find {handle : Word} {q : EspPartition} {imageSize : Word} {w : Nat} {ops : OtaOps}
    (streaming : Streaming handle q imageSize w ops) :
    (ops.entries.find? fun it => it.handle = handle) = some ⟨handle, q, imageSize, BitVec.ofNat 32 w⟩ := by
  obtain ⟨rest, entries⟩ := streaming
  rw [entries, List.find?_cons_of_pos (by simp)]

theorem Streaming.add {handle : Word} {q : EspPartition} {imageSize : Word} {w n : Nat} {ops : OtaOps}
    (streaming : Streaming handle q imageSize w ops) :
    Streaming handle q imageSize (w + n)
      { ops with entries := addWrote handle (BitVec.ofNat 32 n) ops.entries } := by
  obtain ⟨rest, entries⟩ := streaming
  refine ⟨rest, ?_⟩
  dsimp only
  rw [entries, addWrote, if_pos rfl, BitVec.ofNat_add]

def CallCounted (address : Nat) (c : OtaCall) : Prop :=
  Bounced address c.src c.bytes.length ∨ (c.bytes.length - (256 - address % 256)) / 256 < 2 ^ 8

theorem callsCounted_cons {address : Nat} {c : OtaCall} {rest : List OtaCall} :
    CallsCounted address (c :: rest) ↔ CallCounted address c ∧ CallsCounted (address + c.bytes.length) rest := Iff.rfl

theorem image_cons (c : OtaCall) (rest : List OtaCall) : image (c :: rest) = c.bytes ++ image rest := rfl

structure OnChip (chipSize : Word) (q : EspPartition) : Prop where
  inside : q.address.toNat + q.size.toNat ≤ chipSize.toNat
  mapped : chipSize.toNat ≤ 0x1000000

section
variable {rom : SpiRom} {chipSize : Word} {q : EspPartition} {handle imageSize : Word} {w : Nat} {ops : OtaOps}
  {flash : Flash} {c : OtaCall} (onChip : OnChip chipSize q)
include onChip

theorem offset_toNat (fits : w ≤ q.size.toNat) :
    (BitVec.ofNat 32 w : Word).toNat = w ∧ (q.address + BitVec.ofNat 32 w).toNat = q.address.toNat + w := by
  obtain ⟨inside, mapped⟩ := onChip
  have small : (BitVec.ofNat 32 w : Word).toNat = w := by
    rw [BitVec.toNat_ofNat]
    exact Nat.mod_eq_of_lt (by omega)
  refine ⟨small, ?_⟩
  rw [BitVec.toNat_add, small]
  exact Nat.mod_eq_of_lt (by omega)

theorem beyond_iff (readable : c.Readable) (fits : w ≤ q.size.toNat) :
    (BitVec.ofNat 32 w + BitVec.ofNat 32 c.bytes.length : Word) > q.size ↔ q.size.toNat < w + c.bytes.length := by
  obtain ⟨inside, mapped⟩ := onChip
  obtain ⟨low, high⟩ := readable
  have sum : (BitVec.ofNat 32 w + BitVec.ofNat 32 c.bytes.length : Word).toNat = w + c.bytes.length := by
    rw [← BitVec.ofNat_add, BitVec.toNat_ofNat]
    exact Nat.mod_eq_of_lt (by omega)
  rw [gt_iff_lt, BitVec.lt_def, sum]

structure CallDoes (enough : Prop) (handle : Word) (q : EspPartition) (imageSize : Word) (w : Nat) (c : OtaCall)
    (flash : Flash) (o : Outcome EspErr Unit) (ops' : OtaOps) (flash' : Flash) : Prop where
  done : o = .ok () → CallCounted (q.address.toNat + w) c ∧ Streaming handle q imageSize (w + c.bytes.length) ops' ∧
    flash' = programBytes (q.address.toNat + w) c.bytes flash
  succeeds : CallCounted (q.address.toNat + w) c → enough → o = .ok ()
  noError : enough → ∀ e, o ≠ .err e

theorem otaWrite_refused (readable : c.Readable) (streaming : Streaming handle q imageSize w ops)
    (erased : imageSize ≠ 0) (fits : w ≤ q.size.toNat) (nonempty : 0 < c.bytes.length)
    (refused : q.size.toNat < w + c.bytes.length ∨ w = 0 ∧ c.bytes.head? ≠ some 0xE9) (fuel : Nat) :
    ∃ e, espOtaWrite rom fuel chipSize handle c.src c.bytes ops flash = ⟨.err e, ops, flash, []⟩ := by
  obtain ⟨small, -⟩ := offset_toNat onChip fits
  have given : c.src ≠ 0 := by
    have low := readable.1
    omega
  have notAfter : ¬ BitVec.ofNat 32 w > q.size := by
    rw [gt_iff_lt, BitVec.lt_def, small]
    omega
  unfold espOtaWrite
  rw [if_neg given, bind_quiet (r := ops) (d := flash) rfl, streaming.find]
  dsimp only
  rw [if_neg erased]
  by_cases noImage : BitVec.ofNat 32 w = (0 : Word) ∧ c.bytes.length > 0 ∧ c.bytes.head? ≠ some 0xE9
  · rw [if_pos noImage]
    exact ⟨_, rfl⟩
  · have beyond : q.size.toNat < w + c.bytes.length := by
      refine refused.resolve_right ?_
      rintro ⟨start, other⟩
      exact noImage ⟨by rw [start]; rfl, nonempty, other⟩
    unfold SpiFlash.espPartitionWrite
    rw [if_neg noImage, if_neg notAfter, if_pos ((beyond_iff onChip readable fits).mpr beyond)]
    exact ⟨_, rfl⟩

variable (works : RomWorks rom) (succeeds : RomSucceeds rom)
include works succeeds

theorem otaWrite_does (readable : c.Readable) (streaming : Streaming handle q imageSize w ops) (erased : imageSize ≠ 0)
    (magic : w = 0 → 0 < c.bytes.length → c.bytes.head? = some 0xE9) (fits : w + c.bytes.length ≤ q.size.toNat)
    (fuel : Nat) :
    wp AnySpiCall (espOtaWrite rom fuel chipSize handle c.src c.bytes)
      (CallDoes (2 ^ 8 < fuel) handle q imageSize w c flash) (fun _ => True) ops flash := by
  obtain ⟨small, place⟩ := offset_toNat onChip (Nat.le_of_add_right_le fits)
  have notBeyond := (beyond_iff onChip readable (Nat.le_of_add_right_le fits)).not.mpr (Nat.not_lt.mpr fits)
  have given : c.src ≠ 0 := by
    have low := readable.1
    omega
  have notAfter : ¬ BitVec.ofNat 32 w > q.size := by
    rw [gt_iff_lt, BitVec.lt_def, small]
    omega
  have accepted : ¬ (BitVec.ofNat 32 w = (0 : Word) ∧ c.bytes.length > 0 ∧ c.bytes.head? ≠ some 0xE9) := by
    rintro ⟨zero, nonempty, other⟩
    have start : w = 0 := by
      rw [← small, zero]
      rfl
    exact other (magic start nonempty)
  have inside : q.address.toNat + w + c.bytes.length ≤ chipSize.toNat := by
    have bound := onChip.inside
    omega
  unfold espOtaWrite
  rw [if_neg given]
  refine wp_bind (wp_get ?_)
  dsimp only
  rw [streaming.find]
  dsimp only
  rw [if_neg erased, if_neg accepted]
  refine wp_bind (wp_onSpi ?_)
  unfold SpiFlash.espPartitionWrite
  rw [if_neg notAfter, if_neg notBeyond, place]
  by_cases counted : CallCounted (q.address.toNat + w) c
  · have does : SpiDoes rom (2 ^ 8 < fuel) (SpiFlash.spiFlashWrite rom fuel chipSize (q.address.toNat + w) c.src
        (SpiFlash.bufferOf c.bytes) c.bytes.length) (q.address.toNat + w)
        ((SpiFlash.bufferOf c.bytes).load 0 c.bytes.length) () ops.spi flash :=
      spiFlashWrite_does works id given inside counted
    rw [load_bufferOf] at does
    refine wp_mono does ?_ fun _ stop => stop
    intro o spi flash' done
    cases o with
    | ok v =>
        refine wp_modify ⟨?_, fun _ _ => rfl, ?_⟩
        · intro _
          obtain ⟨rest, entries⟩ := streaming
          exact ⟨counted, Streaming.add ⟨rest, entries⟩, (done.programmed v rfl).2⟩
        · intro _ e failed
          cases failed
    | err e =>
        refine ⟨?_, ?_, ?_⟩
        · intro ok
          cases ok
        · intro _ enough
          cases done.succeeds enough succeeds
        · intro enough
          cases done.succeeds enough succeeds
    | fault =>
        refine ⟨?_, ?_, ?_⟩
        · intro ok
          cases ok
        · intro _ enough
          cases done.succeeds enough succeeds
        · intro _ e failed
          cases failed
  · have direct : ¬ Bounced (q.address.toNat + w) c.src c.bytes.length := fun bounced => counted (Or.inl bounced)
    have many : 2 ^ 8 ≤ (c.bytes.length - (256 - (q.address.toNat + w) % 256)) / 256 := by
      apply Nat.le_of_not_lt
      intro few
      exact counted (Or.inr few)
    refine wp_mono (spiFlashWrite_hangs given inside direct many fuel) ?_ fun _ stop => stop
    intro o spi flash' hangs
    cases hangs.2 succeeds
    refine ⟨?_, fun fine => absurd fine counted, ?_⟩
    · intro ok
      cases ok
    · intro _ e failed
      cases failed

theorem writeAll_does {calls : List OtaCall} (readable : ∀ c ∈ calls, c.Readable) (erased : imageSize ≠ 0)
    (streaming : Streaming handle q imageSize w ops) (magic : w = 0 → ∀ b, (image calls).head? = some b → b = 0xE9)
    (fits : w + (image calls).length ≤ q.size.toNat) (fuel : Nat) :
    wp AnySpiCall (writeAll rom fuel chipSize handle calls)
      (fun o ops' flash' =>
        (o = .ok () → CallsCounted (q.address.toNat + w) calls ∧
          Streaming handle q imageSize (w + (image calls).length) ops' ∧
            flash' = programBytes (q.address.toNat + w) (image calls) flash) ∧
          (CallsCounted (q.address.toNat + w) calls → 2 ^ 8 < fuel → o = .ok ())) (fun _ => True) ops flash := by
  induction calls generalizing w ops flash with
  | nil =>
      refine wp_pure () ⟨?_, fun _ _ => rfl⟩
      intro _
      exact ⟨trivial, streaming, (programBytes_nil _ _).symm⟩
  | cons c rest ih =>
      rw [image_cons, List.length_append] at fits
      have first : w = 0 → 0 < c.bytes.length → c.bytes.head? = some 0xE9 := by
        intro start nonempty
        cases bytes : c.bytes with
        | nil =>
            rw [bytes] at nonempty
            cases nonempty
        | cons b more =>
            have head := magic start b (by rw [image_cons, bytes]; rfl)
            rw [head]
            rfl
      have later : w + c.bytes.length = 0 → ∀ b, (image rest).head? = some b → b = 0xE9 := by
        intro start b head
        have none : c.bytes = [] := List.eq_nil_of_length_eq_zero (by omega)
        exact magic (by omega) b (by rw [image_cons, none]; exact head)
      unfold writeAll
      refine wp_bind (wp_mono (otaWrite_does onChip works succeeds (readable c List.mem_cons_self) streaming erased
        first (by omega) fuel) ?_ fun _ stop => stop)
      intro o ops' flash' does
      cases o with
      | ok v =>
          obtain ⟨counted, streaming', written⟩ := does.done rfl
          subst written
          refine wp_mono (ih (fun c member => readable c (List.mem_cons_of_mem _ member)) streaming' later
            (by omega)) ?_ fun _ stop => stop
          rintro o' ops'' flash'' ⟨done, ends⟩
          rw [← Nat.add_assoc] at done ends
          refine ⟨?_, ?_⟩
          · intro ok
            obtain ⟨counted', streaming'', written'⟩ := done ok
            refine ⟨callsCounted_cons.mpr ⟨counted, counted'⟩, ?_, ?_⟩
            · rw [image_cons, List.length_append, ← Nat.add_assoc]
              exact streaming''
            · rw [written', image_cons, programBytes_append]
          · intro all enough
            exact ends (callsCounted_cons.mp all).2 enough
      | err e =>
          refine ⟨?_, ?_⟩
          · intro ok
            cases ok
          · intro all enough
            cases does.succeeds (callsCounted_cons.mp all).1 enough
      | fault =>
          refine ⟨?_, ?_⟩
          · intro ok
            cases ok
          · intro all enough
            cases does.succeeds (callsCounted_cons.mp all).1 enough

end

theorem toNat_erasedBytes {imageSize : Word} (small : imageSize.toNat ≤ 0x1000000) :
    ((imageSize / 4096 + 1) * 4096 : Word).toNat = erasedBytes imageSize := by
  change ((imageSize / 4096 + 1) * 4096 : Word).toNat = (imageSize.toNat / 4096 + 1) * 4096
  have quotient : (imageSize / 4096 : Word).toNat = imageSize.toNat / 4096 := BitVec.toNat_udiv
  have more : (imageSize / 4096 + 1 : Word).toNat = imageSize.toNat / 4096 + 1 := by
    rw [BitVec.toNat_add, quotient]
    exact Nat.mod_eq_of_lt (by change imageSize.toNat / 4096 + 1 < 2 ^ 32; omega)
  rw [BitVec.toNat_mul, more]
  exact Nat.mod_eq_of_lt (by change (imageSize.toNat / 4096 + 1) * 4096 < 2 ^ 32; omega)

section
variable {chipSize : Word} {list : List EspPartition} {physOffs : Word} {p : EspPartition} {imageSize : Word}
  {outHandle : Nat} {ops : OtaOps} {flash : Flash} (target : UpdateTarget chipSize list physOffs p)
include target

theorem begin_eq (given : outHandle ≠ 0) (nonzero : imageSize ≠ 0) (known : imageSize ≠ OTA_SIZE_UNKNOWN) :
    ∃ q : EspPartition, q.address = p.address ∧ q.size = p.size ∧
      espOtaBegin chipSize true list physOffs (some p) imageSize outHandle = (do
        OtaOps.onFlash (espPartitionEraseRange chipSize q 0 ((imageSize / 4096 + 1) * 4096))
        let ops ← Prog.get
        Prog.modify fun ops' => { ops' with
          entries := ⟨ops.lastHandle + 1, q, imageSize, 0⟩ :: ops'.entries, lastHandle := ops.lastHandle + 1 }
        pure (ops.lastHandle + 1)) := by
  have specific : p.subtype.toNat ≠ ESP_PARTITION_SUBTYPE_ANY := by
    have upper : p.subtype.toNat < 0x20 := target.slot.2.2
    change p.subtype.toNat ≠ 0xff
    omega
  obtain ⟨j, q, found, there, type, subtype, -, address, size⟩ := verify_some target.listed
  have slot : isOtaPartition q := by
    unfold isOtaPartition
    rw [type, subtype.resolve_left specific]
    exact target.slot
  obtain ⟨running, runs, other⟩ := target.notRunning
  have idle : j ≠ running := by
    intro same
    exact other (by rw [found, same])
  have one : ¬ (imageSize = 0 ∨ imageSize = OTA_SIZE_UNKNOWN) := by
    rintro (zero | unknown)
    · exact nonzero zero
    · exact known unknown
  refine ⟨q, address, size, ?_⟩
  unfold espOtaBegin
  simp only [if_neg given, found, there, not_not_intro slot, if_false, runs, if_neg idle, if_neg one, if_true]

theorem known_size (fits : imageSize ≤ p.size) : imageSize ≠ OTA_SIZE_UNKNOWN := by
  intro unknown
  have small : imageSize.toNat ≤ p.size.toNat := fits
  have inside := target.inside
  have mapped : chipSize.toNat ≤ 0x1000000 := target.mapped
  rw [unknown] at small
  have large : OTA_SIZE_UNKNOWN.toNat = 0xFFFFFFFF := rfl
  omega

variable (nonzero : imageSize ≠ 0)
include nonzero

theorem begin_done (given : outHandle ≠ 0) (smaller : imageSize < p.size) :
    ∃ q : EspPartition, q.address = p.address ∧ q.size = p.size ∧
      wp AnySpiCall (espOtaBegin chipSize true list physOffs (some p) imageSize outHandle)
        (fun o ops' flash' => o = .ok (ops.lastHandle + 1) ∧ Streaming (ops.lastHandle + 1) q imageSize 0 ops' ∧
          SectorsErased (imageSize.toNat / 4096 + 1) (p.address.toNat / 4096) flash flash') (fun _ => True) ops
        flash := by
  obtain ⟨q, address, size, same⟩ := begin_eq target given nonzero (known_size target (BitVec.le_of_lt smaller))
  refine ⟨q, address, size, ?_⟩
  have inside := target.inside
  have mapped : chipSize.toNat ≤ 0x1000000 := target.mapped
  have sectors : p.address.toNat % 4096 = 0 ∧ p.size.toNat % 4096 = 0 := ⟨target.address, target.size⟩
  have less : imageSize.toNat < p.size.toNat := smaller
  have bytes : ((imageSize / 4096 + 1) * 4096 : Word).toNat = (imageSize.toNat / 4096 + 1) * 4096 :=
    toNat_erasedBytes (by omega)
  rw [same]
  refine wp_bind (wp_onFlash ?_)
  refine wp_mono (eraseRange_done (by rw [address]; exact sectors.1) (by rw [address, size]; exact inside)
    (by rw [bytes]; omega) (by rw [bytes]; omega) (by rw [bytes, size]; omega) flash) ?_ fun _ stop => stop
  rintro o _ flash' ⟨ok, erased⟩
  subst ok
  rw [bytes, address, Nat.mul_div_cancel _ (by decide)] at erased
  refine wp_bind (wp_get (wp_bind (wp_modify (wp_pure _ ⟨rfl, ⟨_, rfl⟩, erased⟩))))

variable (ops flash) in
theorem begin_refused (given : outHandle ≠ 0) (full : imageSize = p.size) :
    (espOtaBegin chipSize true list physOffs (some p) imageSize outHandle ops flash).outcome = .err .invalidSize := by
  have known : imageSize ≠ OTA_SIZE_UNKNOWN := known_size target (by rw [full]; exact BitVec.le_refl _)
  obtain ⟨q, address, size, same⟩ := begin_eq target given nonzero known
  have inside := target.inside
  have mapped : chipSize.toNat ≤ 0x1000000 := target.mapped
  have sectors : p.address.toNat % 4096 = 0 ∧ p.size.toNat % 4096 = 0 := ⟨target.address, target.size⟩
  have equal : imageSize.toNat = p.size.toNat := by rw [full]
  have bytes : ((imageSize / 4096 + 1) * 4096 : Word).toNat = (imageSize.toNat / 4096 + 1) * 4096 :=
    toNat_erasedBytes (by omega)
  have notBefore : ¬ (0 : Word) > q.size := by
    rw [gt_iff_lt, BitVec.lt_def]
    exact Nat.not_lt_zero _
  have total : (0 : Word) + (imageSize / 4096 + 1) * 4096 = (imageSize / 4096 + 1) * 4096 := BitVec.zero_add _
  have beyond : (0 : Word) + (imageSize / 4096 + 1) * 4096 > q.size := by
    rw [gt_iff_lt, total, BitVec.lt_def, bytes, size]
    omega
  have refused : OtaOps.onFlash (espPartitionEraseRange chipSize q 0 ((imageSize / 4096 + 1) * 4096)) ops flash =
      ⟨.err .invalidSize, ops, flash, []⟩ := by
    unfold espPartitionEraseRange
    rw [if_neg notBefore, if_pos beyond]
    rfl
  rw [same, bind_err refused]

end

theorem load_programBytes_erased {flash : Flash} {a : Nat} {bytes : List Byte}
    (erased : ∀ x, a ≤ x → x < a + bytes.length → flash x = 0xFF) :
    Lib.Memory.load (programBytes a bytes flash) a bytes.length = bytes := by
  apply List.ext_getElem?
  intro i
  by_cases inside : i < bytes.length
  · have byte : bytes[i]? = some (bytes.getD i 0) := by
      rw [List.getD_eq_getElem?_getD, List.getElem?_eq_getElem inside]
      rfl
    rw [Lib.Memory.load, List.getElem?_map, List.getElem?_range inside, Option.map_some, programBytes,
      if_pos (by omega), erased _ (by omega) (by omega), Nat.add_sub_cancel_left, byte]
    exact congrArg some BitVec.allOnes_and
  · rw [List.getElem?_eq_none (by rw [Lib.Memory.length_load]; omega), List.getElem?_eq_none (by omega)]

section
variable {rom : SpiRom} {chipSize : Word} {list : List EspPartition} {physOffs : Word} {p : EspPartition}
  {imageSize : Word} {outHandle : Nat} {ops : OtaOps} {flash : Flash} {calls : List OtaCall} {last : OtaCall}

structure Begun (chipSize : Word) (list : List EspPartition) (physOffs : Word) (p : EspPartition) (imageSize : Word)
    (outHandle : Nat) (ops : OtaOps) (flash : Flash) (q : EspPartition) : Prop where
  address : q.address = p.address
  size : q.size = p.size
  ok : (begun chipSize list physOffs p imageSize outHandle ops flash).outcome = .ok (ops.lastHandle + 1)
  streaming : Streaming (ops.lastHandle + 1) q imageSize 0
    (begun chipSize list physOffs p imageSize outHandle ops flash).volatile
  erased : SectorsErased (imageSize.toNat / 4096 + 1) (p.address.toNat / 4096) flash
    (begun chipSize list physOffs p imageSize outHandle ops flash).durable
  onChip : OnChip chipSize q

variable (ops flash) in
theorem begun_of_smaller (target : UpdateTarget chipSize list physOffs p) (nonzero : imageSize ≠ 0)
    (given : outHandle ≠ 0) (smaller : imageSize < p.size) :
    ∃ q, Begun chipSize list physOffs p imageSize outHandle ops flash q := by
  obtain ⟨q, address, size, run⟩ := begin_done target nonzero given smaller
  obtain ⟨ok, streaming, erased⟩ := run.ends
  refine ⟨q, address, size, ok, streaming, erased, ?_, target.mapped⟩
  rw [address, size]
  exact target.inside

theorem Begun.erases {q : EspPartition} (start : Begun chipSize list physOffs p imageSize outHandle ops flash q)
    (target : UpdateTarget chipSize list physOffs p) {x : Nat} (low : p.address.toNat ≤ x)
    (high : x < p.address.toNat + imageSize.toNat) :
    (begun chipSize list physOffs p imageSize outHandle ops flash).durable x = 0xFF := by
  have aligned : p.address.toNat % 4096 = 0 := target.address
  rw [start.erased x, if_pos (by omega)]

theorem Begun.keeps {q : EspPartition} (start : Begun chipSize list physOffs p imageSize outHandle ops flash q)
    (target : UpdateTarget chipSize list physOffs p) (smaller : imageSize < p.size) {x : Nat}
    (outside : x < p.address.toNat ∨ p.address.toNat + p.size.toNat ≤ x) :
    (begun chipSize list physOffs p imageSize outHandle ops flash).durable x = flash x := by
  have aligned : p.address.toNat % 4096 = 0 := target.address
  have whole : p.size.toNat % 4096 = 0 := target.size
  have less : imageSize.toNat < p.size.toNat := smaller
  rw [start.erased x, if_neg (by omega)]

variable (works : RomWorks rom) (succeeds : RomSucceeds rom) (nonzero : imageSize ≠ 0)
  (readable : ∀ c ∈ calls, c.Readable) (magic : ∀ b, (image calls).head? = some b → b = 0xE9)
include works succeeds nonzero readable magic

theorem Begun.streamed_does {q : EspPartition}
    (start : Begun chipSize list physOffs p imageSize outHandle ops flash q)
    (fits : (image calls).length ≤ p.size.toNat) (fuel : Nat) :
    let after := streamed rom chipSize list physOffs p imageSize outHandle ops flash fuel (ops.lastHandle + 1) calls
    (after.outcome = .ok () → CallsCounted p.address.toNat calls ∧
      Streaming (ops.lastHandle + 1) q imageSize (image calls).length after.volatile ∧
        after.durable = programBytes p.address.toNat (image calls)
          (begun chipSize list physOffs p imageSize outHandle ops flash).durable) ∧
      (CallsCounted p.address.toNat calls → 2 ^ 8 < fuel → after.outcome = .ok ()) := by
  have run := wp.ends (d := (begun chipSize list physOffs p imageSize outHandle ops flash).durable)
    (writeAll_does start.onChip works succeeds readable nonzero start.streaming (fun _ => magic)
      (by rw [start.size, Nat.zero_add]; exact fits) fuel)
  rw [Nat.zero_add, Nat.add_zero, start.address] at run
  exact run

/-- The image is streamed exactly where its calls can be counted and no call ends behind the erased sectors. -/
theorem streams_image_iff (target : UpdateTarget chipSize list physOffs p) (fits : imageSize ≤ p.size)
    (given : outHandle ≠ 0) (sized : (image calls).length ≤ imageSize.toNat) (lastReadable : last.Readable) :
    StreamsImage rom chipSize list physOffs p imageSize outHandle ops flash calls last ↔
      StreamsWhen p imageSize calls last := by
  have most : imageSize.toNat ≤ p.size.toNat := fits
  constructor
  · intro streams
    have smaller : imageSize < p.size := by
      by_contra full
      have same : imageSize = p.size := BitVec.le_antisymm fits (BitVec.not_lt.mp full)
      obtain ⟨handle, ok⟩ := streams.begins
      have refused := begin_refused ops flash target nonzero given same
      rw [begun, refused] at ok
      cases ok
    obtain ⟨q, start⟩ := begun_of_smaller ops flash target nonzero given smaller
    obtain ⟨enough, writes⟩ := streams.writes _ start.ok
    have ran (fuel : Nat) (fit : fuel ≥ enough) := (start.streamed_does works succeeds nonzero readable magic
      (Nat.le_trans sized most) fuel).1 (writes fuel fit).1
    refine ⟨smaller, (ran enough (Nat.le_refl _)).1, ?_⟩
    intro beyond
    by_contra gap
    obtain ⟨inside, begins⟩ := not_or.mp gap
    obtain ⟨enough', refuses⟩ := streams.refuses _ start.ok beyond
    obtain ⟨fuel, enough₁, enough₂, enough₃⟩ : ∃ fuel, fuel ≥ enough ∧ fuel ≥ enough' ∧ 2 ^ 8 < fuel :=
      ⟨enough + enough' + 257, by omega, by omega, by omega⟩
    obtain ⟨-, streaming, -⟩ := ran fuel enough₁
    obtain ⟨⟨e, failed⟩, -, -⟩ := refuses fuel enough₂
    have first : (image calls).length = 0 → 0 < last.bytes.length → last.bytes.head? = some 0xE9 := by
      intro none _
      by_contra other
      exact begins ⟨List.eq_nil_of_length_eq_zero none, other⟩
    exact absurd failed ((otaWrite_does start.onChip works succeeds lastReadable streaming nonzero first
      (by rw [start.size]; exact Nat.le_of_not_lt inside) fuel).ends.noError enough₃ e)
  · rintro ⟨smaller, counted, noGap⟩
    obtain ⟨q, start⟩ := begun_of_smaller ops flash target nonzero given smaller
    have ran (fuel : Nat) (fit : fuel ≥ 257) :
        (streamed rom chipSize list physOffs p imageSize outHandle ops flash fuel (ops.lastHandle + 1) calls).outcome =
          .ok () :=
      (start.streamed_does works succeeds nonzero readable magic (Nat.le_trans sized most) fuel).2 counted fit
    have unique {handle : Word}
        (ok : (begun chipSize list physOffs p imageSize outHandle ops flash).outcome = .ok handle) :
        handle = ops.lastHandle + 1 := by
      rw [start.ok] at ok
      cases ok
      rfl
    refine ⟨⟨_, start.ok⟩, fun x => start.erases target, fun x => start.keeps target smaller, ?_, ?_⟩
    · intro handle ok
      rw [unique ok]
      refine ⟨257, ?_⟩
      intro fuel fit
      have done := ran fuel fit
      obtain ⟨-, -, programmed⟩ := (start.streamed_does works succeeds nonzero readable magic (Nat.le_trans sized most)
        fuel).1 done
      refine ⟨done, ?_⟩
      rw [programmed]
      exact load_programBytes_erased fun x low high => start.erases target low (by omega)
    · intro handle ok beyond
      rw [unique ok]
      refine ⟨257, ?_⟩
      intro fuel fit
      obtain ⟨-, streaming, -⟩ := (start.streamed_does works succeeds nonzero readable magic (Nat.le_trans sized most)
        fuel).1 (ran fuel fit)
      have more : imageSize.toNat < (imageSize.toNat / 4096 + 1) * 4096 := by omega
      have nonempty : 0 < last.bytes.length := by
        change (imageSize.toNat / 4096 + 1) * 4096 < _ at beyond
        omega
      have refused : q.size.toNat < (image calls).length + last.bytes.length ∨
          (image calls).length = 0 ∧ last.bytes.head? ≠ some 0xE9 := by
        rw [start.size]
        exact (noGap beyond).imp_right (And.imp_left fun none => by rw [none]; rfl)
      have unchanged (before : Flash) : ∃ e, espOtaWrite rom fuel chipSize (ops.lastHandle + 1) last.src last.bytes
          _ before = ⟨.err e, _, before, []⟩ :=
        otaWrite_refused start.onChip lastReadable streaming nonzero
          (by rw [start.size]; exact Nat.le_trans sized most) nonempty refused fuel
      obtain ⟨e, same⟩ := unchanged _
      dsimp only
      rw [same]
      exact ⟨⟨_, rfl⟩, rfl, rfl⟩

end

theorem slotUpdate1 : UpdateTarget 0x100000 otaDevice.list 0x10000 (appPartition 0x11 0x30000) where
  slot := by decide
  listed := by decide
  notRunning := ⟨1, by decide, by decide⟩
  address := by decide
  size := by decide
  inside := by decide
  mapped := by decide

def idleOps : OtaOps := ⟨⟨0, [], [], []⟩, [], 0⟩

def magicCall : OtaCall := ⟨0x3FFE8000, [0xE9]⟩

def imageCalls : List OtaCall :=
  [⟨0x3FFE8000, 0xE9 :: List.replicate 99 1⟩, ⟨0x3FFE8001, List.replicate 200 2⟩, ⟨0x3FFE8000, [3]⟩]

def lastCall : OtaCall := ⟨0x3FFE8000, List.replicate 0x10000 4⟩

theorem imageCalls_readable : ∀ c ∈ imageCalls, c.Readable := by
  intro c listed
  rcases List.mem_cons.mp listed with rfl | listed
  · exact ⟨by decide, by decide⟩
  · rcases List.mem_cons.mp listed with rfl | listed
    · exact ⟨by decide, by decide +kernel⟩
    · exact List.mem_singleton.mp listed ▸ ⟨by decide, by decide⟩

theorem lastCall_length : lastCall.bytes.length = 0x10000 := List.length_replicate

theorem lastCall_readable : lastCall.Readable := by
  refine ⟨by decide, ?_⟩
  rw [lastCall_length]
  decide

theorem imageCalls_stream : StreamsWhen (appPartition 0x11 0x30000) 301 imageCalls lastCall where
  smaller := by decide
  counted := ⟨.inr (by decide), .inr (by decide +kernel), .inr (by decide +kernel), trivial⟩
  noGap := by
    intro beyond
    refine .inl ?_
    rw [lastCall_length]
    decide +kernel

theorem streams_image_calls :
    StreamsImage exactRom 0x100000 otaDevice.list 0x10000 (appPartition 0x11 0x30000) 301 4 idleOps blankFlash
      imageCalls lastCall :=
  (streams_image_iff exactRom_works exactRom_succeeds (by decide) imageCalls_readable
    (fun b first => (Option.some.inj first).symm) slotUpdate1 (by decide) (by decide) (by decide +kernel)
    lastCall_readable).mpr imageCalls_stream

/-- An update of the size of its partition is refused. -/
theorem full_partition_refused :
    ¬ StreamsImage exactRom 0x100000 otaDevice.list 0x10000 (appPartition 0x11 0x30000) 0x10000 4 idleOps
      blankFlash [magicCall] magicCall := by
  intro streams
  obtain ⟨handle, ok⟩ := streams.begins
  have refused := begin_refused idleOps blankFlash slotUpdate1 (by decide : (0x10000 : Word) ≠ 0)
    (by decide : 4 ≠ 0) rfl
  rw [begun, refused] at ok
  cases ok

end EspFirmware.Proof.Boot
