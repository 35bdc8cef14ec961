import EspFirmware.Proof.Boot.Image

/-!
The loader read by read, as the loader on what its reads leave.
-/

namespace EspFirmware.Proof.Boot
open EspFirmware.Boot EspFirmware.Spec EspFirmware.Lib EspFirmware.Lib.Prog
open EspFirmware.ImageRead (FlashReader LoadState LoadProg zeroed zeroBuffer)
open EspFirmware.Nvs (Byte Word)

abbrev AnyLoad : Unit → List Unit → Prop := fun _ _ => True

def Simulates {α β : Type} (p : LoadProg α) (st : LoadState) (x : Run β) (related : α → β → LoadState → Prop) : Prop :=
  wp AnyLoad p (fun o st' _ =>
    match x.run with
    | none => o = .fault
    | some (.error e) => o = .err e
    | some (.ok b) => ∃ a, o = .ok a ∧ related a b st') (fun _ => True) st ()

section
variable {α β γ δ : Type} {p : LoadProg α} {x : Run β} {st : LoadState} {related : α → β → LoadState → Prop}

theorem sim_pure {a : α} {b : β} (holds : related a b st) : Simulates (pure a) st (pure b) related :=
  wp_pure a ⟨a, rfl, holds⟩

theorem sim_throw (e : EspErr) : Simulates (Prog.throw e) st (throw e) related := wp_throw e rfl

theorem sim_none {related' : α → β → LoadState → Prop} (runsOn : x.run = none) (sim : Simulates p st x related) :
    Simulates p st x related' := by
  unfold Simulates at sim ⊢
  rw [runsOn] at sim ⊢
  exact sim

theorem sim_congr {y : Run β} (same : y.run = x.run) (sim : Simulates p st x related) : Simulates p st y related := by
  unfold Simulates
  rw [same]
  exact sim

theorem sim_bind {f : α → LoadProg γ} {g : β → Run δ} {related' : γ → δ → LoadState → Prop}
    (first : Simulates p st x related)
    (later : ∀ a b st', x.run = some (.ok b) → related a b st' → Simulates (f a) st' (g b) related') :
    Simulates (p >>= f) st (x >>= g) related' := by
  refine wp_bind (wp_mono first ?_ fun _ stop => stop)
  intro o st' _ ends
  cases run : x.run with
  | none =>
      rw [run] at ends
      subst ends
      dsimp only
      rw [run_bind_none run]
  | some result =>
      rw [run] at ends
      cases result with
      | error e =>
          dsimp only at ends
          subst ends
          dsimp only
          rw [run_bind_error run]
      | ok b =>
          obtain ⟨a, ok, holds⟩ := ends
          subst ok
          exact sim_congr (run_bind_ok run) (later a b st' run holds)

theorem sim_map {h : β → δ} {related' : α → δ → LoadState → Prop} (sim : Simulates p st x related)
    (holds : ∀ a b st', related a b st' → related' a (h b) st') :
    Simulates p st (x >>= fun b => pure (h b)) related' := by
  refine wp_mono sim ?_ fun _ stop => stop
  intro o st' _ ends
  cases run : x.run with
  | none =>
      rw [run] at ends
      rw [run_bind_none run]
      exact ends
  | some result =>
      rw [run] at ends
      cases result with
      | error e =>
          rw [run_bind_error run]
          exact ends
      | ok b =>
          obtain ⟨a, ok, related⟩ := ends
          rw [run_bind_ok run]
          exact ⟨a, ok, holds a b st' related⟩

theorem sim_step {f : α → LoadProg γ} {a : α} {st' : LoadState} {y : Run δ} {related' : γ → δ → LoadState → Prop}
    (step : p st () = ⟨.ok a, st', (), []⟩) (later : Simulates (f a) st' y related') :
    Simulates (p >>= f) st y related' :=
  wp_bind (wp_still step later)

end

section
variable {r : FlashReader} {st : LoadState}

theorem read_sim {srcAddr size : Word} {dest : Lib.Memory} :
    Simulates (ImageRead.bootloaderFlashRead r srcAddr dest size) st (bootloaderFlashRead srcAddr size)
      (fun buffer _ st' => buffer = r.read st.calls srcAddr size.toNat dest ∧
        st' = { st with calls := st.calls + 1 }) := by
  unfold ImageRead.bootloaderFlashRead bootloaderFlashRead
  by_cases address : srcAddr &&& 3 ≠ 0
  · rw [if_pos address, if_pos address]
    exact sim_throw _
  rw [if_neg address, if_neg address]
  by_cases odd : size &&& 3 ≠ 0
  · rw [if_pos odd, if_pos odd]
    exact sim_throw _
  rw [if_neg odd, if_neg odd]
  exact sim_step rfl (sim_step rfl (sim_pure ⟨rfl, rfl⟩))

theorem chunk_toNat {dataLen : Word} {c : Nat} (short : dataLen.toNat ≤ 0xFFFFFC00) (more : 1024 * c < dataLen.toNat) :
    (if SHA_CHUNK < dataLen - BitVec.ofNat 32 (1024 * c) then SHA_CHUNK
      else dataLen - BitVec.ofNat 32 (1024 * c)).toNat = min 1024 (dataLen.toNat - 1024 * c) := by
  have index : (BitVec.ofNat 32 (1024 * c) : Word).toNat = 1024 * c := by
    rw [BitVec.toNat_ofNat]
    exact Nat.mod_eq_of_lt (by omega)
  have left : (dataLen - BitVec.ofNat 32 (1024 * c)).toNat = dataLen.toNat - 1024 * c := by
    rw [BitVec.toNat_sub, index]
    omega
  split
  · rename_i whole
    rw [BitVec.lt_def, left] at whole
    change 1024 < _ at whole
    change 1024 = _
    omega
  · rename_i part
    rw [BitVec.lt_def, left] at part
    change ¬ 1024 < _ at part
    rw [left]
    omega

theorem load32_shift {m m' : Lib.Memory} {a b : Nat} (same : ∀ j < 4, m (a + j) = m' (b + j)) :
    m.load32 a = m'.load32 b := by
  have first : m a = m' b := same 0 (by decide)
  unfold Lib.Memory.load32
  rw [first, same 1 (by decide), same 2 (by decide), same 3 (by decide)]

theorem xorWords_congr {m m' : Lib.Memory} {a b count : Nat} (same : ∀ j < 4 * count, m (a + j) = m' (b + j))
    (sum : Word) :
    xorWords m a count sum = xorWords m' b count sum := by
  have words : (List.range count).map (fun j => m.load32 (a + 4 * j)) =
      (List.range count).map fun j => m'.load32 (b + 4 * j) := by
    apply List.map_congr_left
    intro j member
    have inside := List.mem_range.mp member
    apply load32_shift
    intro i byte
    rw [Nat.add_assoc, Nat.add_assoc]
    exact same _ (by omega)
  rw [xorWords_eq, xorWords_eq, words]

theorem dataLoop_sim {m : Lib.Memory} {dataAddr dataLen : Word} {first : Nat} {chunk : Nat → Lib.Memory}
    (short : dataLen.toNat ≤ 0xFFFFFC00)
    (reads : ∀ c, chunk (c + 1) = r.read (first + c) (dataAddr + BitVec.ofNat 32 (1024 * c))
      (min 1024 (dataLen.toNat - 1024 * c)) (chunk c))
    (held : ∀ c j, j < min 1024 (dataLen.toNat - 1024 * c) →
      m ((dataAddr + BitVec.ofNat 32 (1024 * c)).toNat + j) = chunk (c + 1) j)
    (fuel : Nat) {c : Nat} (reached : c ≤ (dataLen.toNat + 1023) / 1024) (calls : st.calls = first + c) (sum : Word) :
    Simulates (ImageRead.dataLoop r dataAddr dataLen fuel (BitVec.ofNat 32 (1024 * c)) (chunk c) sum) st
      (dataLoop m dataAddr dataLen fuel (BitVec.ofNat 32 (1024 * c)) sum)
      (fun a b st' => a = b ∧ st' = { st with calls := first + (dataLen.toNat + 1023) / 1024 }) := by
  induction fuel generalizing c st sum with
  | zero => exact wp_still rfl rfl
  | succ fuel ih =>
      rw [ImageRead.dataLoop, dataLoop]
      have index : (BitVec.ofNat 32 (1024 * c) : Word).toNat = 1024 * c := by
        rw [BitVec.toNat_ofNat]
        exact Nat.mod_eq_of_lt (by omega)
      by_cases more : 1024 * c < dataLen.toNat
      · have goes : BitVec.ofNat 32 (1024 * c) < dataLen := by
          rw [BitVec.lt_def, index]
          exact more
        rw [if_pos goes, if_pos goes]
        have size := chunk_toNat short more
        dsimp only
        generalize (if SHA_CHUNK < dataLen - BitVec.ofNat 32 (1024 * c) then SHA_CHUNK
          else dataLen - BitVec.ofNat 32 (1024 * c)) = bytes at size ⊢
        refine sim_bind read_sim ?_
        rintro buffer _ st' _ ⟨left, after⟩
        rw [calls, size, ← reads c] at left
        have next : (BitVec.ofNat 32 (1024 * c) : Word) + SHA_CHUNK = BitVec.ofNat 32 (1024 * (c + 1)) := by
          rw [Nat.mul_succ, BitVec.ofNat_add]
          rfl
        have words : xorWords m (dataAddr + BitVec.ofNat 32 (1024 * c)).toNat (bytes.toNat / 4) sum =
            xorWords buffer 0 (bytes.toNat / 4) sum := by
          apply xorWords_congr
          intro j inside
          rw [left, Nat.zero_add]
          exact held c j (by omega)
        rw [words, next, left]
        subst after
        exact ih (by omega) (by change st.calls + 1 = first + (c + 1); omega) _
      · have ends : ¬ BitVec.ofNat 32 (1024 * c) < dataLen := by
          rw [BitVec.lt_def, index]
          exact more
        have all : c = (dataLen.toNat + 1023) / 1024 := by omega
        rw [if_neg ends, if_neg ends, ← all, ← calls]
        exact sim_pure ⟨rfl, rfl⟩

theorem dataLoop_shape (r : FlashReader) (st : LoadState) (m : Lib.Memory) {dataAddr dataLen : Word} (fuel : Nat)
    (i : Word) (pbuf : Lib.Memory) (sum sum' : Word) :
    Simulates (ImageRead.dataLoop r dataAddr dataLen fuel i pbuf sum) st (dataLoop m dataAddr dataLen fuel i sum')
      (fun _ _ _ => True) := by
  induction fuel generalizing i pbuf sum sum' st with
  | zero => exact wp_still rfl rfl
  | succ fuel ih =>
      rw [ImageRead.dataLoop, dataLoop]
      by_cases more : i < dataLen
      · rw [if_pos more, if_pos more]
        exact sim_bind read_sim fun buffer _ st' _ _ => ih _ _ _ _ _
      · rw [if_neg more, if_neg more]
        exact sim_pure trivial

section
variable {heap : Nat → Option Lib.Memory} {buf : Lib.Memory} {part : EspPartitionPos}

theorem leftAt_succ (k : Nat) :
    leftAt r part (k + 1) = ((leftAt r part k).1 + 1 + ((dataLenLeft r part k).toNat + 1023) / 1024,
      (leftAt r part k).2 + 8 + dataLenLeft r part k) := rfl

theorem segmentLeft_header (k : Nat) {j : Nat} (inside : j < 8) :
    segmentLeft r heap part k ((leftAt r part k).2.toNat + j) = headerLeft r part k j := by
  have offset : ((leftAt r part k).2.toNat + j + 2 ^ 32 - (leftAt r part k).2.toNat) % 2 ^ 32 = j := by omega
  unfold segmentLeft
  dsimp only
  rw [offset, if_pos inside]

theorem segmentLeft_data (k : Nat) {c j : Nat} (short : (dataLenLeft r part k).toNat ≤ 0xFFFFFC00)
    (inside : j < min 1024 ((dataLenLeft r part k).toNat - 1024 * c)) :
    segmentLeft r heap part k (((leftAt r part k).2 + 8 + BitVec.ofNat 32 (1024 * c)).toNat + j) =
      chunkLeft r heap part k (c + 1) j := by
  have bound := (leftAt r part k).2.isLt
  have place : ((leftAt r part k).2 + 8 + BitVec.ofNat 32 (1024 * c)).toNat =
      ((leftAt r part k).2.toNat + 8 + 1024 * c) % 2 ^ 32 := by
    rw [BitVec.toNat_add, BitVec.toNat_add, BitVec.toNat_ofNat]
    change (((leftAt r part k).2.toNat + 8) % 2 ^ 32 + 1024 * c % 2 ^ 32) % 2 ^ 32 = _
    omega
  have offset : (((leftAt r part k).2 + 8 + BitVec.ofNat 32 (1024 * c)).toNat + j + 2 ^ 32 -
      (leftAt r part k).2.toNat) % 2 ^ 32 = 8 + 1024 * c + j := by
    rw [place]
    omega
  have chunk : (8 + 1024 * c + j - 8) / 1024 = c := by omega
  have byte : (8 + 1024 * c + j - 8) % 1024 = j := by omega
  unfold segmentLeft
  dsimp only
  rw [offset, if_neg (by omega), chunk, byte]

theorem header_left (k : Nat) :
    EspImageSegmentHeader.read (segmentLeft r heap part k) (leftAt r part k).2.toNat =
      EspImageSegmentHeader.read (headerLeft r part k) 0 := by
  have first : (segmentLeft r heap part k).load32 (leftAt r part k).2.toNat = (headerLeft r part k).load32 0 := by
    apply load32_shift
    intro j byte
    rw [segmentLeft_header k (by omega), Nat.zero_add]
  have second : (segmentLeft r heap part k).load32 ((leftAt r part k).2.toNat + 4) =
      (headerLeft r part k).load32 (0 + 4) := by
    apply load32_shift
    intro j byte
    rw [Nat.add_assoc, segmentLeft_header k (by omega), Nat.zero_add]
  unfold EspImageSegmentHeader.read
  rw [first, second]

theorem segmentAddr_left (k : Nat) : segmentAddr (leftBy r heap buf part) part k = (leftAt r part k).2 := by
  induction k with
  | zero => rfl
  | succ k ih =>
      rw [segmentAddr, ih]
      change (leftAt r part k).2 + 8 +
        (EspImageSegmentHeader.read (segmentLeft r heap part k) (leftAt r part k).2.toNat).dataLen = _
      rw [header_left]
      rfl

theorem segmentAt_left (k : Nat) :
    segmentAt (leftBy r heap buf part) part k = EspImageSegmentHeader.read (headerLeft r part k) 0 := by
  rw [segmentAt, segmentAddr_left]
  exact header_left k

theorem processSegmentData_sim (fuel : Nat) {k : Nat} (aligned : (leftAt r part k).2.toNat % 4 = 0)
    (whole : (dataLenLeft r part k).toNat % 4 = 0) (calls : st.calls = (leftAt r part k).1 + 1) (sum : Word) :
    Simulates (ImageRead.processSegmentData r fuel (heap k) ((leftAt r part k).2 + 8) (dataLenLeft r part k) sum) st
      (processSegmentData fuel (segmentLeft r heap part k) (heap k).isSome ((leftAt r part k).2 + 8)
        (dataLenLeft r part k) sum)
      (fun a b st' => a = b ∧ st' = { st with calls := (leftAt r part (k + 1)).1 }) := by
  unfold ImageRead.processSegmentData processSegmentData
  cases found : heap k with
  | none => exact sim_throw _
  | some pbuf =>
      have there : ¬ (Option.some pbuf).isSome = false := by simp
      rw [if_neg there]
      dsimp only
      by_cases short : (dataLenLeft r part k).toNat ≤ 0xFFFFFC00
      · have start : pbuf = chunkLeft r heap part k 0 := by
          rw [chunkLeft, found]
          rfl
        rw [start, leftAt_succ]
        exact dataLoop_sim short (fun _ => rfl) (fun c j inside => segmentLeft_data k short inside) fuel (c := 0)
          (Nat.zero_le _) calls sum
      · have start : ((leftAt r part k).2 + 8).toNat % 4 = 0 := by
          rw [BitVec.toNat_add]
          change ((leftAt r part k).2.toNat + 8) % 2 ^ 32 % 4 = 0
          omega
        have long : 0xFFFFFC00 < (dataLenLeft r part k).toNat := Nat.lt_of_not_le short
        have runsOn := @dataLoop_runs_on (segmentLeft r heap part k) _ _ start whole long fuel 0 rfl sum
        exact sim_none runsOn (dataLoop_shape r st _ fuel 0 pbuf sum sum)

theorem processSegment_sim (buf : Lib.Memory) (fuel : Nat) {k : Nat} (calls : st.calls = (leftAt r part k).1)
    (sum : Word) :
    Simulates (ImageRead.processSegment r fuel (heap k) (leftAt r part k).2 sum) st
      (processSegment fuel (leftBy r heap buf part) k (leftAt r part k).2 sum)
      (fun a b st' => a = b ∧ a.1.dataLen = dataLenLeft r part k ∧
        st' = { st with calls := (leftAt r part (k + 1)).1 }) := by
  unfold ImageRead.processSegment processSegment
  refine sim_bind read_sim ?_
  rintro buffer _ st' passed ⟨left, after⟩
  have aligned : (leftAt r part k).2.toNat % 4 = 0 := by
    by_contra odd
    rw [flashRead_unaligned odd] at passed
    cases passed
  have header : EspImageSegmentHeader.read ((leftBy r heap buf part).segment k) (leftAt r part k).2.toNat =
      EspImageSegmentHeader.read buffer 0 := by
    rw [left, calls]
    exact header_left k
  have length : (EspImageSegmentHeader.read buffer 0).dataLen = dataLenLeft r part k := by
    rw [left, calls]
    rfl
  dsimp only
  rw [header]
  refine sim_congr (run_bind_ok (a := ()) rfl) ?_
  rw [length]
  by_cases odd : dataLenLeft r part k % 4 ≠ 0
  · rw [if_pos odd, if_pos odd]
    exact sim_throw _
  rw [if_neg odd, if_neg odd]
  have whole : (dataLenLeft r part k).toNat % 4 = 0 := (mod_four_eq_zero _).mp (not_not.mp odd)
  subst after
  refine sim_bind (processSegmentData_sim fuel aligned whole (by rw [← calls]) sum) ?_
  rintro a b st' _ ⟨same, after⟩
  subst same after
  exact sim_pure ⟨rfl, length, rfl⟩

theorem segmentLoop_sim (fuel : Nat) {left k : Nat} (calls : st.calls = (leftAt r part k).1) (sum : Word) :
    Simulates (ImageRead.segmentLoop r fuel heap left k (leftAt r part k).2 sum) st
      (segmentLoop fuel (leftBy r heap buf part) left k (leftAt r part k).2 sum)
      (fun a done st' => a = (done.nextAddr, done.checksum) ∧ done.nextAddr = (leftAt r part (k + left)).2 ∧
        st' = ⟨(leftAt r part (k + left)).1, { st.data with
          segments := st.data.segments ++ done.segments
          segmentData := st.data.segmentData ++ done.segmentData }⟩) := by
  induction left generalizing k st sum with
  | zero =>
      refine sim_pure ⟨rfl, rfl, ?_⟩
      rw [Nat.add_zero, ← calls, List.append_nil, List.append_nil]
  | succ left ih =>
      rw [ImageRead.segmentLoop, segmentLoop]
      refine sim_bind (processSegment_sim buf fuel calls sum) ?_
      rintro ⟨header, sum'⟩ b st' _ ⟨same, length, after⟩
      subst same after
      change header.dataLen = dataLenLeft r part k at length
      refine sim_step rfl ?_
      have next : (leftAt r part k).2 + 8 + header.dataLen = (leftAt r part (k + 1)).2 := by
        rw [leftAt_succ, length]
      dsimp only
      rw [next]
      refine sim_map (ih rfl sum') ?_
      rintro a done st' ⟨same, ends, after⟩
      have later : k + 1 + left = k + (left + 1) := by omega
      rw [later] at ends after
      refine ⟨same, ends, ?_⟩
      rw [after, List.append_assoc, List.append_assoc]
      rfl

theorem caught_sim {srcAddr size : Word} {dest : Lib.Memory} {f : Lib.Memory → LoadProg Word} {g : Unit → Run Word}
    {related : Word → Word → LoadState → Prop}
    (later : Simulates (f (r.read st.calls srcAddr size.toNat dest)) { st with calls := st.calls + 1 } (g ()) related) :
    Simulates (Prog.attempt (ImageRead.bootloaderFlashRead r srcAddr dest size) >>= fun read =>
        match read with
        | .error _ => Prog.throw .imageInvalid
        | .ok buffer => f buffer) st
      (tryCatch (bootloaderFlashRead srcAddr size) (fun _ => throw .imageInvalid) >>= g) related := by
  unfold ImageRead.bootloaderFlashRead bootloaderFlashRead
  by_cases odd : srcAddr &&& 3 ≠ 0
  · rw [if_pos odd, if_pos odd]
    exact sim_step rfl (sim_throw _)
  by_cases part : size &&& 3 ≠ 0
  · rw [if_neg odd, if_neg odd, if_pos part, if_pos part]
    exact sim_step rfl (sim_throw _)
  · rw [if_neg odd, if_neg odd, if_neg part, if_neg part]
    exact sim_step rfl later

theorem verifyChecksum_sim (calls : st.calls = (leftAt r part (segmentCountLeft r part)).1) (sum : Word) :
    Simulates (ImageRead.verifyChecksum r buf sum part.offset
        ((leftAt r part (segmentCountLeft r part)).2 - part.offset)) st
      (verifyChecksum (leftBy r heap buf part).checksum sum part.offset
        ((leftAt r part (segmentCountLeft r part)).2 - part.offset))
      (fun a b st' => a = b ∧ st' = { st with calls := readCount r part }) := by
  have back : part.offset + ((leftAt r part (segmentCountLeft r part)).2 - part.offset) =
      (leftAt r part (segmentCountLeft r part)).2 := by
    rw [BitVec.add_comm, BitVec.sub_add_cancel]
  unfold ImageRead.verifyChecksum verifyChecksum
  dsimp only
  rw [back]
  refine caught_sim ?_
  have byte (j : Nat) : (leftBy r heap buf part).checksum ((leftAt r part (segmentCountLeft r part)).2.toNat + j) =
      checksumLeft r buf part j := by
    change checksumLeft r buf part ((leftAt r part (segmentCountLeft r part)).2.toNat + j -
      (leftAt r part (segmentCountLeft r part)).2.toNat) = _
    rw [Nat.add_sub_cancel_left]
  rw [byte, calls]
  change Simulates (if foldWord sum ≠ checksumLeft r buf part _ then _ else _) _ _ _
  split
  · exact sim_throw _
  · exact sim_pure ⟨rfl, rfl⟩

theorem header_image (r : FlashReader) (heap : Nat → Option Lib.Memory) (buf : Lib.Memory) (part : EspPartitionPos) :
    imageAt (leftBy r heap buf part) part = EspImageHeader.read (r.read 0 part.offset 8 zeroBuffer) 0 := by
  have byte (j : Nat) : (leftBy r heap buf part).header (part.offset.toNat + j) =
      r.read 0 part.offset 8 zeroBuffer (0 + j) := by
    change r.read 0 part.offset 8 zeroBuffer (part.offset.toNat + j - part.offset.toNat) = _
    rw [Nat.add_sub_cancel_left, Nat.zero_add]
  have first : (leftBy r heap buf part).header part.offset.toNat = r.read 0 part.offset 8 zeroBuffer 0 := byte 0
  have entry : (leftBy r heap buf part).header.load32 (part.offset.toNat + 4) =
      (r.read 0 part.offset 8 zeroBuffer).load32 (0 + 4) := by
    apply load32_shift
    intro j _
    rw [Nat.add_assoc, Nat.add_assoc]
    exact byte (4 + j)
  unfold imageAt EspImageHeader.read
  rw [first, byte, byte, byte, entry]

theorem loadImage_sim (fuel : Nat) (data : EspImageMetadata) :
    Simulates (ImageRead.loadImage r fuel heap buf part) ⟨0, data⟩ (espImageLoad fuel (leftBy r heap buf part) part)
      (fun _ loaded st' => st' = ⟨readCount r part, loaded⟩) := by
  unfold ImageRead.loadImage espImageLoad
  by_cases large : part.size > SIXTEEN_MB
  · rw [if_pos large, if_pos large]
    exact sim_throw _
  rw [if_neg large, if_neg large]
  refine sim_step rfl (sim_bind read_sim ?_)
  rintro buffer _ st' _ ⟨left, after⟩
  subst after
  have header := header_image r heap buf part
  rw [imageAt] at header
  change buffer = r.read 0 part.offset 8 zeroBuffer at left
  subst left
  refine sim_step rfl ?_
  dsimp only
  rw [header]
  generalize image_eq : EspImageHeader.read (r.read 0 part.offset 8 zeroBuffer) 0 = image
  have count : segmentCountLeft r part = image.segmentCount.toNat := by rw [segmentCountLeft, image_eq]
  by_cases other : image.magic ≠ ESP_IMAGE_HEADER_MAGIC
  · rw [if_pos other]
    have refused : (verifyImageHeader image).run = some (.error .imageInvalid) := by
      rw [verifyImageHeader, if_pos other]
      rfl
    exact sim_congr (run_bind_error refused) (sim_throw _)
  rw [if_neg other]
  have passed : (verifyImageHeader image).run = some (.ok ()) := by
    rw [verifyImageHeader, if_neg other]
    rfl
  refine sim_congr (run_bind_ok passed) ?_
  by_cases many : image.segmentCount.toNat > ESP_IMAGE_MAX_SEGMENTS
  · rw [if_pos many, if_pos many]
    exact sim_throw _
  rw [if_neg many, if_neg many]
  refine sim_bind (segmentLoop_sim fuel (k := 0) rfl ESP_ROM_CHECKSUM_INITIAL) ?_
  rintro a done st' _ ⟨same, ends, after⟩
  rw [Nat.zero_add, ← count] at ends after
  subst same after
  unfold finishLoad
  dsimp only
  by_cases wrapped : done.nextAddr < part.offset
  · rw [if_pos wrapped, if_pos wrapped]
    exact sim_throw _
  rw [if_neg wrapped, if_neg wrapped, ends]
  refine sim_bind (verifyChecksum_sim rfl done.checksum) ?_
  rintro length _ st' _ ⟨same, after⟩
  subst same after
  refine sim_step rfl ?_
  by_cases long : length > part.size
  · rw [if_pos long, if_pos long]
    exact sim_throw _
  · rw [if_neg long, if_neg long]
    exact sim_pure rfl

variable (r heap buf part) in
theorem load_ends (fuel : Nat) (data : EspImageMetadata) :
    wp AnyLoad (ImageRead.espImageLoad r fuel heap buf part)
      (fun o st' _ =>
        match (espImageLoad fuel (leftBy r heap buf part) part).run with
        | none => o = .fault
        | some (.error e) => o = .err e ∧ st'.data = zeroed
        | some (.ok loaded) => o = .ok () ∧ st' = ⟨readCount r part, loaded⟩) (fun _ => True) ⟨0, data⟩ () := by
  unfold ImageRead.espImageLoad
  refine wp_bind (wp_attempt (wp_mono (loadImage_sim fuel data) ?_ fun _ stop => stop))
  intro o st' _ ends
  cases run : (espImageLoad fuel (leftBy r heap buf part) part).run with
  | none =>
      rw [run] at ends
      subst ends
      dsimp only
  | some result =>
      rw [run] at ends
      cases result with
      | error e =>
          dsimp only at ends
          subst ends
          exact wp_bind (wp_modify (wp_throw e ⟨rfl, rfl⟩))
      | ok loaded =>
          obtain ⟨_, ok, after⟩ := ends
          subst ok after
          exact wp_pure () ⟨rfl, rfl⟩

end

end

section
variable {reads : ImageReads} {part : EspPartitionPos}

theorem bind_ok_left {α β : Type} {x : Run α} {f : α → Run β} {b : β} (ok : (x >>= f).run = some (.ok b)) :
    ∃ a, x.run = some (.ok a) := by
  cases run : x.run with
  | none =>
      rw [run_bind_none run] at ok
      cases ok
  | some result =>
      cases result with
      | error e =>
          rw [run_bind_error run] at ok
          cases ok
      | ok a => exact ⟨a, rfl⟩

theorem segmentLoop_read (aligned : part.offset.toNat % 4 = 0) {fuel left k : Nat} {done : SegmentsDone}
    (before : ∀ j < k, SegmentRead reads part j)
    (ok : (segmentLoop fuel reads left k (segmentAddr reads part k) (checksumAt reads part k)).run = some (.ok done)) :
    ∀ j < k + left, SegmentRead reads part j := by
  induction left generalizing k done with
  | zero => exact before
  | succ left ih =>
      have place : (segmentAddr reads part k).toNat % 4 = 0 :=
        segmentAddr_aligned aligned fun j less => (before j less).1
      rw [segmentLoop] at ok
      obtain ⟨first, processed⟩ := bind_ok_left ok
      have accepted : SegmentAccepted reads part k := by
        by_contra refused
        obtain ⟨e, fails⟩ := processSegment_refused place fuel refused (checksumAt reads part k)
        rw [fails] at processed
        cases processed
      have short : (segmentAt reads part k).dataLen.toNat ≤ 0xFFFFFC00 := by
        by_contra long
        rw [processSegment_runs_on place fuel accepted (Nat.lt_of_not_le long)] at processed
        cases processed
      have result := processSegment_ends place fuel accepted short
      rw [processed] at result
      split at result
      · cases result
        rw [run_bind_ok processed] at ok
        obtain ⟨rest, later⟩ := bind_ok_left ok
        have through := ih (k := k + 1) (fun j less => by
          rcases Nat.lt_succ_iff_lt_or_eq.mp less with early | same
          · exact before j early
          · subst same
            exact ⟨accepted, short⟩) later
        intro j inside
        exact through j (by omega)
      · cases result

theorem accepted_of_load {fuel : Nat} {loaded : EspImageMetadata}
    (ok : (espImageLoad fuel reads part).run = some (.ok loaded)) :
    ImageAccepted reads part ∧ ∀ k < (imageAt reads part).segmentCount.toNat,
      (segmentAt reads part k).dataLen.toNat ≤ 0xFFFFFC00 := by
  have header : HeaderAccepted reads part := by
    by_contra refused
    obtain ⟨e, fails⟩ := load_refused refused fuel
    rw [fails] at ok
    cases ok
  have loop := ok
  rw [load_eq header] at loop
  obtain ⟨done, looped⟩ := bind_ok_left loop
  have read := segmentLoop_read header.aligned (fun j less => absurd less (Nat.not_lt_zero j)) looped
  rw [Nat.zero_add] at read
  refine ⟨?_, fun k inside => (read k inside).2⟩
  rcases finishLoad_cases header fun k inside => (read k inside).1 with ⟨accepted, -⟩ | ⟨-, e, fails⟩
  · exact accepted
  · rcases loop_done header read fuel with same | ⟨runsOn, -⟩
    · rw [same, fails] at ok
      cases ok
    · rw [runsOn] at ok
      cases ok

theorem load_of_accepted (accepted : ImageAccepted reads part)
    (counted : ∀ k < (imageAt reads part).segmentCount.toNat, (segmentAt reads part k).dataLen.toNat ≤ 0xFFFFFC00) :
    ∃ loaded, (espImageLoad (2 ^ 22) reads part).run = some (.ok loaded) := by
  have read : ∀ k < (imageAt reads part).segmentCount.toNat, SegmentRead reads part k :=
    fun k inside => ⟨accepted.segments k inside, counted k inside⟩
  rcases loop_done accepted.header read (2 ^ 22) with same | ⟨-, few⟩
  · rcases finishLoad_cases accepted.header accepted.segments with ⟨-, imageLen, -, returns⟩ | ⟨refused, -⟩
    · exact ⟨_, same.trans returns⟩
    · exact absurd accepted refused
  · exact absurd few (Nat.lt_irrefl _)

end

section
variable {r : FlashReader} {heap : Nat → Option Lib.Memory} {buf : Lib.Memory} {part : EspPartitionPos}

theorem leavesImage_iff :
    LeavesImage r heap buf part ↔ ImageAccepted (leftBy r heap buf part) part ∧
      ∀ k < (imageAt (leftBy r heap buf part) part).segmentCount.toNat,
        (segmentAt (leftBy r heap buf part) part k).dataLen.toNat ≤ 0xFFFFFC00 := by
  have count : (imageAt (leftBy r heap buf part) part).segmentCount.toNat = segmentCountLeft r part := by
    rw [header_image]
    rfl
  rw [count]
  simp only [segmentAt_left]
  constructor
  · rintro ⟨accepted, counted⟩
    exact ⟨accepted, counted⟩
  · rintro ⟨accepted, counted⟩
    exact ⟨accepted, counted⟩

theorem read_errors_stop_iff (r : FlashReader) (heap : Nat → Option Lib.Memory) (buf : Lib.Memory)
    (part : EspPartitionPos) :
    ReadErrorsStop r heap buf part ↔ (LeavesImage r heap buf part → ∀ k < readCount r part, r.fails k = false) := by
  constructor
  · intro stop leaves k inside
    obtain ⟨accepted, counted⟩ := leavesImage_iff.mp leaves
    obtain ⟨loaded, ok⟩ := load_of_accepted accepted counted
    have ends := (load_ends r heap buf part (2 ^ 22) zeroed).ends
    rw [ok] at ends
    by_contra failing
    refine (stop (2 ^ 22) zeroed ⟨k, ?_, Bool.eq_true_of_not_eq_false failing⟩).1 ends.1
    rw [ends.2]
    exact inside
  · intro condition fuel data ran made
    obtain ⟨k, issued, failing⟩ := made
    have ends := (load_ends r heap buf part fuel data).ends
    cases run : (espImageLoad fuel (leftBy r heap buf part) part).run with
    | none =>
        rw [run] at ends
        have runsOn : ran.outcome = .fault := ends
        rw [runsOn]
        refine ⟨?_, ?_⟩
        · intro ok
          cases ok
        · intro e failed
          cases failed
    | some result =>
        rw [run] at ends
        cases result with
        | error e =>
            obtain ⟨failed, cleared⟩ : ran.outcome = .err e ∧ ran.volatile.data = zeroed := ends
            refine ⟨?_, fun _ _ => cleared⟩
            rw [failed]
            intro ok
            cases ok
        | ok loaded =>
            obtain ⟨-, after⟩ : ran.outcome = .ok () ∧ ran.volatile = ⟨readCount r part, loaded⟩ := ends
            rw [after] at issued
            have fine := condition (leavesImage_iff.mpr (accepted_of_load run)) k issued
            rw [fine] at failing
            cases failing

theorem read_kind {k n : Nat} (inside : k < (leftAt r part n).1) :
    k = 0 ∨ ∃ j < n, k = (leftAt r part j).1 ∨
      ∃ c, 1024 * c < (dataLenLeft r part j).toNat ∧ k = (leftAt r part j).1 + 1 + c := by
  induction n with
  | zero =>
      left
      change k < 1 at inside
      omega
  | succ n ih =>
      rw [leftAt_succ] at inside
      dsimp only at inside
      by_cases before : k < (leftAt r part n).1
      · rcases ih before with image | ⟨j, earlier, kind⟩
        · exact .inl image
        · exact .inr ⟨j, by omega, kind⟩
      · right
        refine ⟨n, by omega, ?_⟩
        by_cases header : k = (leftAt r part n).1
        · exact .inl header
        · exact .inr ⟨k - (leftAt r part n).1 - 1, by omega, by omega⟩

theorem leavesImage_segment (leaves : LeavesImage r heap buf part) {k : Nat} (inside : k < segmentCountLeft r part) :
    SegmentLeft r heap part k := by
  have count : (imageAt (leftBy r heap buf part) part).segmentCount.toNat = segmentCountLeft r part := by
    rw [header_image]
    rfl
  have accepted := leaves.accepted.segments k (by rw [count]; exact inside)
  rw [SegmentAccepted, segmentAt_left] at accepted
  exact ⟨accepted.1, leaves.counted k inside, accepted.2⟩

theorem leavesImage_made (leaves : LeavesImage r heap buf part) {k : Nat} (inside : k < readCount r part) :
    ReadMade r heap buf part k := by
  have header := leaves.accepted.header
  by_cases last : k = (leftAt r part (segmentCountLeft r part)).1
  · subst last
    refine .checksum header (fun j before => leavesImage_segment leaves before) ?_
    have noWrap := leaves.accepted.noWrap
    rw [endAddr, segmentAddr_left, header_image] at noWrap
    exact noWrap
  · have before : k < (leftAt r part (segmentCountLeft r part)).1 := by
      unfold readCount at inside
      omega
    rcases read_kind before with rfl | ⟨j, within, rfl | ⟨c, more, rfl⟩⟩
    · exact .image header.size header.aligned
    · exact .header j header within fun i earlier => leavesImage_segment leaves (by omega)
    · exact .chunk j c header within (fun i earlier => leavesImage_segment leaves (by omega)) more

theorem showsUp_refused {k : Nat} (shows_ : ShowsUp r heap buf part k) : ¬ LeavesImage r heap buf part := by
  intro leaves
  have accepted := leaves.accepted
  cases shows_ with
  | image wrong =>
      have few := accepted.header.count
      rw [header_image] at few
      rcases wrong with magic | many
      · exact magic accepted.header.magic
      · exact absurd many (Nat.not_lt.mpr few)
  | length k inside wrong =>
      obtain ⟨whole, short, -⟩ := leavesImage_segment leaves inside
      omega
  | extent k _ wrong =>
      rcases wrong with wraps | long
      · exact absurd accepted.noWrap (BitVec.not_le.mpr wraps)
      · exact absurd accepted.length (Nat.not_le.mpr long)
  | checksum k wrong => exact wrong accepted.checksum

end

/-- An image of one segment with the data 1, 2, 0, 0, on a flash whose third read fails and leaves the buffer as it
is. -/
def failingDataReader : FlashReader where
  flash := Lib.Memory.store (fun _ => 0) 0x10000 [0xE9, 1, 0, 0, 0, 0, 0, 0, 0, 0, 0, 0, 4, 0, 0, 0, 1, 2, 0, 0, 0, 0,
    0, 0, 0, 0, 0, 0, 0, 0, 0, 0xEC]
  fails := fun k => k = 2
  leaves := fun _ buffer => buffer

/-- An image of one segment with the data 1, 1, 0, 0, on a flash whose second read fails and leaves the buffer as it
is. -/
def failingReader : FlashReader where
  flash := Lib.Memory.store (fun _ => 0) 0x10000 [0xE9, 1, 0, 0, 0, 0, 0, 0, 0, 0, 0, 0, 4, 0, 0, 0, 1, 1, 0, 0, 0, 0,
    0, 0, 0, 0, 0, 0, 0, 0, 0, 0xEF]
  fails := fun k => k = 1
  leaves := fun _ buffer => buffer

end EspFirmware.Proof.Boot
