import EspFirmware.Proof.Rtos.Pointers

/-!
The free size that a buffer reports can be used where the headers of an item fit into the free space. Elsewhere the size
of the largest item is reported.
-/

namespace EspFirmware.Proof.Rtos
open EspFirmware.Lib EspFirmware.Rtos EspFirmware.Spec

section
variable {rb rb' : Ringbuffer}

theorem sent_pointers (ptrs : Pointers rb) {item : List (BitVec 8)} {ok : Bool}
    (sent : rb.xRingbufferSend item = some (ok, rb')) : Pointers rb' := by
  unfold Ringbuffer.xRingbufferSend at sent
  by_cases long : item.length > rb.xMaxItemSize
  · rw [if_pos long] at sent
    cases sent
    exact ptrs
  · rw [if_neg long] at sent
    by_cases nothing : rb.type = .byteBuf ∧ item.length = 0
    · rw [if_pos nothing] at sent
      cases sent
      exact ptrs
    · rw [if_neg nothing] at sent
      obtain ⟨fits, checked, sent⟩ := Option.bind_eq_some_iff.mp sent
      cases fits with
      | false =>
          cases sent
          exact ptrs
      | true =>
          obtain ⟨copy, copied, sent⟩ := Option.bind_eq_some_iff.mp sent
          obtain ⟨size, _, made⟩ := Option.map_eq_some_iff.mp sent
          cases made
          obtain ⟨copy', copied', ptrs'⟩ := ptrs.copies (by omega) checked
          rw [copied] at copied'
          cases copied'
          exact ptrs'

theorem received_pointers (ptrs : Pointers rb) {both : Bool} {most : Nat} {parts : List Part}
    (received : rb.prvReceiveGeneric both most = some (parts, rb')) : Pointers rb' := by
  unfold Ringbuffer.prvReceiveGeneric at received
  split at received
  · obtain ⟨⟨first, got⟩, gets, received⟩ := Option.bind_eq_some_iff.mp received
    have ptrs' := (ptrs.gets gets).1
    unfold Ringbuffer.getSecondPart at received
    dsimp only at received
    split at received
    · next split =>
        obtain ⟨⟨second, got'⟩, gets', received⟩ := Option.bind_eq_some_iff.mp received
        have again : got.pvGetItem 0 = some (second, got') := by
          unfold Ringbuffer.pvGetItem
          rw [split.1]
          exact gets'
        obtain ⟨_, received⟩ := asserted received
        obtain ⟨_, received⟩ := asserted received
        cases received
        exact (ptrs'.gets again).1
    · cases received
      exact ptrs'
  · cases received
    exact ptrs

theorem op_pointers (ptrs : Pointers rb) (op : RingOp) (made : op.run rb = some rb') : Pointers rb' := by
  cases op with
  | send item =>
      obtain ⟨⟨ok, rb₁⟩, sent, rfl⟩ := Option.map_eq_some_iff.mp made
      exact sent_pointers ptrs sent
  | receive =>
      obtain ⟨⟨parts, rb₁⟩, received, rfl⟩ := Option.map_eq_some_iff.mp made
      exact received_pointers ptrs received
  | receiveSplit =>
      obtain ⟨⟨parts, rb₁⟩, received, rfl⟩ := Option.map_eq_some_iff.mp made
      obtain ⟨_, received⟩ := asserted received
      exact received_pointers ptrs received
  | receiveUpTo most =>
      obtain ⟨⟨parts, rb₁⟩, received, rfl⟩ := Option.map_eq_some_iff.mp made
      obtain ⟨_, received⟩ := asserted received
      split at received
      · cases received
        exact ptrs
      · exact received_pointers ptrs received
  | returnItem p => exact ptrs.returns made

theorem ops_pointers (ptrs : Pointers rb) {ops : List RingOp} (run : runOps ops rb = some rb') : Pointers rb' := by
  induction ops generalizing rb with
  | nil =>
      cases run
      exact ptrs
  | cons op rest ih =>
      obtain ⟨rb₁, made, run⟩ := Option.bind_eq_some_iff.mp run
      exact ih (op_pointers ptrs op made) run

theorem fits_sends (ptrs : Pointers rb) {item : List (BitVec 8)} (some_ : 0 < item.length)
    (small : item.length ≤ rb.xMaxItemSize) (fits : rb.xCheckItemFits item.length = some true) :
    ∃ rb', rb.xRingbufferSend item = some (true, rb') := by
  obtain ⟨rb', copied, ptrs'⟩ := ptrs.copies small fits
  obtain ⟨size, known, _⟩ := ptrs'.freeSize
  unfold Ringbuffer.xRingbufferSend
  rw [if_neg (by omega), if_neg (by omega), fits]
  refine ⟨rb', ?_⟩
  change ((rb.vCopyItem item).bind fun rb => rb.prvGetFreeSize.map fun _ => (true, rb)) = _
  rw [copied]
  change (rb'.prvGetFreeSize.map fun _ => (true, rb')) = _
  rw [known]
  rfl

theorem usable_iff_fits (ptrs : Pointers rb) (small : rb.xRingbufferGetCurFreeSize ≤ rb.xMaxItemSize) :
    FreeSizeUsable rb ↔
      (0 < rb.xRingbufferGetCurFreeSize → rb.xCheckItemFits rb.xRingbufferGetCurFreeSize = some true) := by
  constructor
  · intro usable some_
    exact (usable.2 some_).1
  · intro fits
    refine ⟨small, ?_⟩
    intro some_
    refine ⟨fits some_, ?_⟩
    intro item length
    rw [← length] at some_ small fits
    exact fits_sends ptrs some_ small (fits some_)

theorem limitFreeSize_eq (below : rb.xMaxItemSize < 2 ^ 31) {x : Int} (low : -2 ^ 31 ≤ x) (high : x < 2 ^ 31) :
    rb.limitFreeSize x = if x < 0 then rb.xMaxItemSize else min x.toNat rb.xMaxItemSize := by
  unfold Ringbuffer.limitFreeSize
  by_cases negative : x < 0
  · have wrapped : (x % 2 ^ 32).toNat > rb.xMaxItemSize := by omega
    rw [if_pos wrapped, if_pos negative]
  · have same : (x % 2 ^ 32).toNat = x.toNat := by omega
    rw [same, if_neg negative, if_neg negative]
    split
    · omega
    · omega

theorem limitFreeSize_le (below : rb.xMaxItemSize < 2 ^ 31) {x : Int} (low : -2 ^ 31 ≤ x) (high : x < 2 ^ 31) :
    rb.limitFreeSize x ≤ rb.xMaxItemSize := by
  rw [limitFreeSize_eq below low high]
  split
  · omega
  · omega

theorem largest_below (storage : ItemStorage rb.type rb.pucHead rb.pucTail rb.xSize rb.xMaxItemSize) :
    rb.xMaxItemSize < 2 ^ 31 := by
  have tail := storage.tail
  have below := storage.below
  have whole := storage.whole
  cases type : rb.type with
  | noSplit =>
      rw [storage.noSplit type, alignSize_eq]
      omega
  | allowSplit =>
      rw [storage.allowSplit type]
      omega
  | byteBuf => exact absurd type storage.items

theorem report_onePiece (ptrs : ItemPointers rb) (notFull : rb.full = false) (before : rb.pucWrite < rb.pucFree) :
    rb.xRingbufferGetCurFreeSize = rb.limitFreeSize ((rb.pucFree - rb.pucWrite : Int) - rbHEADER_SIZE) := by
  have low := ptrs.write.low
  unfold Ringbuffer.xRingbufferGetCurFreeSize
  cases type : rb.type with
  | noSplit =>
      dsimp only
      unfold Ringbuffer.prvGetCurMaxSizeNoSplit
      rw [notFull, if_neg (by decide)]
      dsimp only
      rw [if_pos before, Int.ofNat_sub (Nat.le_of_lt before)]
  | allowSplit =>
      dsimp only
      unfold Ringbuffer.prvGetCurMaxSizeAllowSplit
      rw [notFull, if_neg (by decide)]
      dsimp only
      rw [if_neg (by omega), if_pos before]
  | byteBuf => exact absurd type ptrs.storage.items

theorem report_noSplit (type : rb.type = .noSplit) (notFull : rb.full = false) (behind : rb.pucFree ≤ rb.pucWrite) :
    rb.xRingbufferGetCurFreeSize =
      rb.limitFreeSize ((max (rb.pucTail - rb.pucWrite) (rb.pucFree - rb.pucHead) : Nat) - rbHEADER_SIZE) := by
  unfold Ringbuffer.xRingbufferGetCurFreeSize
  rw [type]
  dsimp only
  unfold Ringbuffer.prvGetCurMaxSizeNoSplit
  rw [notFull, if_neg (by decide)]
  dsimp only
  rw [if_neg (by omega)]
  have larger : (if rb.pucTail - rb.pucWrite > rb.pucFree - rb.pucHead then rb.pucTail - rb.pucWrite
      else rb.pucFree - rb.pucHead) = max (rb.pucTail - rb.pucWrite) (rb.pucFree - rb.pucHead) := by
    split
    · omega
    · omega
  rw [larger]

theorem report_allowSplit (type : rb.type = .allowSplit) (notFull : rb.full = false) (low : rb.pucHead ≤ rb.pucFree)
    (behind : rb.pucFree < rb.pucWrite) :
    rb.xRingbufferGetCurFreeSize =
      rb.limitFreeSize ((rb.pucFree : Int) - rb.pucHead + (rb.pucTail - rb.pucWrite) - rbHEADER_SIZE * 2) := by
  unfold Ringbuffer.xRingbufferGetCurFreeSize
  rw [type]
  dsimp only
  unfold Ringbuffer.prvGetCurMaxSizeAllowSplit
  rw [notFull, if_neg (by decide)]
  dsimp only
  rw [if_neg (by omega), if_neg (by omega)]

theorem itemFits_checks (ptrs : ItemPointers rb) {n : Nat} : rb.xCheckItemFits n = some true ↔ ItemFits rb n := by
  obtain ⟨fits, checked, iff⟩ := itemCheck ptrs n
  rw [checked, ← iff]
  exact Option.some_inj

theorem usable_of_fits (ptrs : ItemPointers rb) (small : rb.xRingbufferGetCurFreeSize ≤ rb.xMaxItemSize)
    (fits : ItemFits rb rb.xRingbufferGetCurFreeSize) (headers : HeadersFit rb) :
    FreeSizeUsable rb ↔ ReportsFreeSize rb := by
  rw [usable_iff_fits (.items ptrs) small, itemFits_checks ptrs]
  exact iff_of_true (fun _ => fits) (Or.inr (Or.inr (Or.inr headers)))

theorem usable_of_largest (ptrs : ItemPointers rb) (notFull : rb.full = false)
    (largest : rb.xRingbufferGetCurFreeSize = rb.xMaxItemSize) (iff : ItemFits rb rb.xMaxItemSize ↔ HeadersFit rb) :
    FreeSizeUsable rb ↔ ReportsFreeSize rb := by
  rw [usable_iff_fits (.items ptrs) (Nat.le_of_eq largest), itemFits_checks ptrs, largest, iff]
  unfold ReportsFreeSize
  constructor
  · intro headers
    by_cases none : rb.xMaxItemSize = 0
    · exact Or.inr (Or.inr (Or.inl none))
    · exact Or.inr (Or.inr (Or.inr (headers (by omega))))
  · rintro (bytes | full | none | headers) some_
    · exact absurd bytes ptrs.storage.items
    · rw [notFull] at full
      cases full
    · omega
    · exact headers

theorem onePiece_iff (ptrs : ItemPointers rb) (notFull : rb.full = false) (before : rb.pucWrite < rb.pucFree) :
    FreeSizeUsable rb ↔ ReportsFreeSize rb := by
  obtain ⟨low, room, aligned⟩ := ptrs.write
  obtain ⟨lowF, roomF, alignedF⟩ := ptrs.free
  have below := ptrs.storage.below
  have small := largest_below ptrs.storage
  have headerSize : rbHEADER_SIZE = 8 := rfl
  have report := report_onePiece ptrs notFull before
  rw [limitFreeSize_eq small (by omega) (by omega)] at report
  by_cases header : rb.pucWrite + 8 ≤ rb.pucFree
  · rw [if_neg (by omega)] at report
    refine usable_of_fits ptrs (by omega) (Or.inr (Or.inl ⟨before, ?_⟩)) ⟨fun _ => by omega, fun _ after => by omega⟩
    rw [report, alignSize_eq]
    omega
  · rw [if_pos (by omega)] at report
    refine usable_of_largest ptrs notFull report (iff_of_false ?_ ?_)
    · unfold ItemFits
      omega
    · intro headers
      have room := headers.onePiece before
      omega

theorem empty_iff (ptrs : ItemPointers rb) (notFull : rb.full = false) (same : rb.pucWrite = rb.pucFree)
    (small : rb.xRingbufferGetCurFreeSize ≤ rb.xMaxItemSize) : FreeSizeUsable rb ↔ ReportsFreeSize rb :=
  usable_of_fits ptrs small (Or.inl ⟨same, notFull⟩) ⟨fun before => by omega, fun _ after => by omega⟩

theorem noSplit_iff (ptrs : ItemPointers rb) (type : rb.type = .noSplit) (notFull : rb.full = false)
    (behind : rb.pucFree ≤ rb.pucWrite) : FreeSizeUsable rb ↔ ReportsFreeSize rb := by
  obtain ⟨low, room, aligned⟩ := ptrs.write
  obtain ⟨lowF, roomF, alignedF⟩ := ptrs.free
  have below := ptrs.storage.below
  have tail := ptrs.storage.tail
  have head := ptrs.storage.head
  have whole := ptrs.storage.whole
  have small := largest_below ptrs.storage
  have headerSize : rbHEADER_SIZE = 8 := rfl
  have report := report_noSplit type notFull behind
  rw [limitFreeSize_eq small (by omega) (by omega), if_neg (by omega)] at report
  rcases Nat.eq_or_lt_of_le behind with same | after
  · exact empty_iff ptrs notFull same.symm (by omega)
  · refine usable_of_fits ptrs (by omega) (Or.inr (Or.inr ⟨after, ?_⟩)) ⟨fun before => by omega, fun other => ?_⟩
    · rw [report, alignSize_eq]
      simp only [type, reduceCtorEq, false_and, true_and, false_or]
      omega
    · rw [type] at other
      cases other

theorem allowSplit_iff (ptrs : ItemPointers rb) (type : rb.type = .allowSplit) (notFull : rb.full = false)
    (after : rb.pucFree < rb.pucWrite) : FreeSizeUsable rb ↔ ReportsFreeSize rb := by
  obtain ⟨low, room, aligned⟩ := ptrs.write
  obtain ⟨lowF, roomF, alignedF⟩ := ptrs.free
  have below := ptrs.storage.below
  have tail := ptrs.storage.tail
  have head := ptrs.storage.head
  have whole := ptrs.storage.whole
  have small := largest_below ptrs.storage
  have headerSize : rbHEADER_SIZE = 8 := rfl
  have report := report_allowSplit type notFull lowF after
  rw [limitFreeSize_eq small (by omega) (by omega)] at report
  by_cases headers : rb.pucWrite + 16 ≤ rb.pucFree + rb.xSize
  · rw [if_neg (by omega)] at report
    refine usable_of_fits ptrs (by omega) (Or.inr (Or.inr ⟨after, Or.inr (Or.inl ⟨type, ?_⟩)⟩))
      ⟨fun before => by omega, fun _ _ => Or.inl (by omega)⟩
    rw [report, alignSize_eq]
    omega
  · rw [if_pos (by omega)] at report
    refine usable_of_largest ptrs notFull report ?_
    constructor
    · intro fits
      refine ⟨fun before => by omega, fun _ _ => Or.inr ?_⟩
      unfold ItemFits at fits
      simp only [type, reduceCtorEq, false_and, true_and, or_false] at fits
      omega
    · intro headers
      have room := headers.twoPieces type after
      exact Or.inr (Or.inr ⟨after, Or.inl (by omega)⟩)

theorem report_empty (ptrs : ItemPointers rb) (type : rb.type = .allowSplit) (notFull : rb.full = false)
    (same : rb.pucWrite = rb.pucFree) : rb.xRingbufferGetCurFreeSize ≤ rb.xMaxItemSize := by
  obtain ⟨low, room, _⟩ := ptrs.write
  have below := ptrs.storage.below
  have tail := ptrs.storage.tail
  have small := largest_below ptrs.storage
  have headerSize : rbHEADER_SIZE = 8 := rfl
  unfold Ringbuffer.xRingbufferGetCurFreeSize
  rw [type]
  dsimp only
  unfold Ringbuffer.prvGetCurMaxSizeAllowSplit
  rw [notFull, if_neg (by decide)]
  refine limitFreeSize_le small ?_ ?_
  · split
    · omega
    · omega
  · split
    · omega
    · omega

theorem items_iff (ptrs : ItemPointers rb) (notFull : rb.full = false) : FreeSizeUsable rb ↔ ReportsFreeSize rb := by
  by_cases before : rb.pucWrite < rb.pucFree
  · exact onePiece_iff ptrs notFull before
  · cases type : rb.type with
    | noSplit => exact noSplit_iff ptrs type notFull (by omega)
    | allowSplit =>
        by_cases same : rb.pucWrite = rb.pucFree
        · exact empty_iff ptrs notFull same (report_empty ptrs type notFull same)
        · exact allowSplit_iff ptrs type notFull (by omega)
    | byteBuf => exact absurd type ptrs.storage.items

theorem bytes_usable (ptrs : BytePointers rb) (notFull : rb.full = false) : FreeSizeUsable rb := by
  obtain ⟨low, high⟩ := ptrs.write
  obtain ⟨lowF, highF⟩ := ptrs.free
  have tail := ptrs.storage.tail
  have most := ptrs.storage.most
  obtain ⟨fits, checked, iff⟩ := byteCheck ptrs rb.xRingbufferGetCurFreeSize
  have report : rb.xRingbufferGetCurFreeSize =
      if (rb.pucFree : Int) - rb.pucWrite ≤ 0 then ((rb.pucFree : Int) - rb.pucWrite + rb.xSize).toNat
      else ((rb.pucFree : Int) - rb.pucWrite).toNat := by
    unfold Ringbuffer.xRingbufferGetCurFreeSize
    rw [ptrs.storage.bytes]
    dsimp only
    unfold Ringbuffer.prvGetCurMaxSizeByteBuf
    rw [notFull, if_neg (by decide)]
  have small : rb.xRingbufferGetCurFreeSize ≤ rb.xMaxItemSize := by
    rw [report]
    split
    · omega
    · omega
  rw [usable_iff_fits (.bytes ptrs) small]
  intro _
  rw [checked]
  refine congrArg some (iff.mpr ?_)
  unfold BytesFit
  rw [report]
  rcases Nat.lt_trichotomy rb.pucWrite rb.pucFree with before | same | behind
  · rw [if_neg (by omega)]
    exact Or.inr (Or.inl ⟨before, by omega⟩)
  · exact Or.inl ⟨same, notFull⟩
  · rw [if_pos (by omega)]
    exact Or.inr (Or.inr ⟨behind, by omega⟩)

theorem full_usable (full : rb.full = true) : FreeSizeUsable rb := by
  have nothing : rb.xRingbufferGetCurFreeSize = 0 := by
    unfold Ringbuffer.xRingbufferGetCurFreeSize
    cases rb.type with
    | noSplit => exact if_pos full
    | allowSplit => exact if_pos full
    | byteBuf => exact if_pos full
  refine ⟨?_, ?_⟩
  · rw [nothing]
    exact Nat.zero_le _
  · intro some_
    rw [nothing] at some_
    exact absurd some_ (Nat.lt_irrefl 0)

end

theorem reported_size_usable_iff {type : RingbufType} (s : StorageOf type) (ops : List RingOp) {rb : Ringbuffer}
    (run : runOps ops s.create = some rb) : FreeSizeUsable rb ↔ ReportsFreeSize rb := by
  have ptrs := ops_pointers (create_pointers s) run
  cases full : rb.full with
  | true => exact iff_of_true (full_usable full) (Or.inr (Or.inl full))
  | false =>
      cases ptrs with
      | items ptrs => exact items_iff ptrs full
      | bytes ptrs => exact iff_of_true (bytes_usable ptrs full) (Or.inl ptrs.storage.bytes)

theorem noSplit32_enough : 12 ≤ rbALIGN_SIZE 32 := by decide

theorem noSplit32_aligned : 64 % 4 = 0 := by decide

theorem noSplit32_positive : 0 < 64 := by decide

theorem noSplit32_below : 64 + rbALIGN_SIZE 32 < 2 ^ 31 := by decide

def noSplit32 : StorageOf .noSplit :=
  ⟨32, 64, fun _ => 0, noSplit32_enough, noSplit32_aligned, noSplit32_positive, noSplit32_below⟩

theorem reported_size_usable_sent : ∃ rb, runOps [.send [1, 2, 3]] noSplit32.create = some rb ∧ FreeSizeUsable rb := by
  have some_ : (runOps [.send [1, 2, 3]] noSplit32.create).isSome := by decide
  refine ⟨_, (Option.some_get some_).symm, ?_⟩
  refine (reported_size_usable_iff noSplit32 [.send [1, 2, 3]] (Option.some_get some_).symm).mpr ?_
  refine Or.inr (Or.inr (Or.inr ⟨?_, ?_⟩))
  · decide +revert
  · decide +revert

def fourBytesLeft : List RingOp :=
  [.send [1, 2, 3, 4], .send [5, 6, 7, 8], .send [], .receive, .returnItem 72, .send []]

theorem short_space_reports_largest :
    ∃ rb, runOps fourBytesLeft noSplit32.create = some rb ∧ rb.xRingbufferGetCurFreeSize = 8 ∧
      rb.xCheckItemFits 8 = some false ∧ ¬ FreeSizeUsable rb := by
  have some_ : (runOps fourBytesLeft noSplit32.create).isSome := by decide
  have eight : ((runOps fourBytesLeft noSplit32.create).get some_).xRingbufferGetCurFreeSize = 8 := by
    decide +revert
  have refused : ((runOps fourBytesLeft noSplit32.create).get some_).xCheckItemFits 8 = some false := by
    decide +revert
  refine ⟨_, (Option.some_get some_).symm, eight, refused, ?_⟩
  intro usable
  have fits := (usable.2 (by omega)).1
  rw [eight, refused] at fits
  cases fits

end EspFirmware.Proof.Rtos
