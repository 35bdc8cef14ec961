import Mathlib.Tactic.ByContra
import EspFirmware.Spec.Ringbuf

/-!
Where the write pointer and the free pointer of a buffer can be, whatever is read and given back.
-/

namespace EspFirmware.Proof.Rtos
open EspFirmware.Lib EspFirmware.Rtos EspFirmware.Spec

theorem asserted {α : Type} {c : Prop} [Decidable c] {rest : Option α} {result : α}
    (returned : configASSERT c rest = some result) : c ∧ rest = some result := by
  unfold configASSERT at returned
  split at returned
  · next holds => exact ⟨holds, returned⟩
  · cases returned

structure HeaderSlot (head tail p : Nat) : Prop where
  low : head ≤ p
  room : p + 8 ≤ tail
  aligned : p % 4 = 0

structure ItemStorage (type : RingbufType) (pucHead pucTail size maxItem : Nat) : Prop where
  items : type ≠ .byteBuf
  tail : pucTail = pucHead + size
  below : pucTail < 2 ^ 31
  head : pucHead % 4 = 0
  whole : size % 4 = 0
  enough : 12 ≤ size
  enoughSplit : type = .allowSplit → 16 ≤ size
  noSplit : type = .noSplit → maxItem = rbALIGN_SIZE (size / 2) - rbHEADER_SIZE
  allowSplit : type = .allowSplit → maxItem = size - rbHEADER_SIZE * 2

structure ItemPointers (rb : Ringbuffer) : Prop where
  storage : ItemStorage rb.type rb.pucHead rb.pucTail rb.xSize rb.xMaxItemSize
  write : HeaderSlot rb.pucHead rb.pucTail rb.pucWrite
  free : HeaderSlot rb.pucHead rb.pucTail rb.pucFree
  full : rb.full = true → rb.pucWrite = rb.pucFree

def ItemFits (rb : Ringbuffer) (n : Nat) : Prop :=
  (rb.pucWrite = rb.pucFree ∧ rb.full = false) ∨
    (rb.pucWrite < rb.pucFree ∧ rb.pucWrite + (rbALIGN_SIZE n + 8) ≤ rb.pucFree) ∨
    (rb.pucFree < rb.pucWrite ∧
      (rb.pucWrite + (rbALIGN_SIZE n + 8) ≤ rb.pucTail ∨
        (rb.type = .allowSplit ∧ rb.pucWrite + (rbALIGN_SIZE n + 16) ≤ rb.pucFree + rb.xSize) ∨
        (rb.type = .noSplit ∧ rb.pucHead + (rbALIGN_SIZE n + 8) ≤ rb.pucFree)))

theorem alignSize_eq (n : Nat) : rbALIGN_SIZE n = (n + 3) / 4 * 4 := rfl

section
variable {rb : Ringbuffer}

theorem itemCheck (ptrs : ItemPointers rb) (n : Nat) :
    ∃ fits, rb.xCheckItemFits n = some fits ∧ (fits = true ↔ ItemFits rb n) := by
  obtain ⟨low, room, aligned⟩ := ptrs.write
  obtain ⟨lowF, roomF, alignedF⟩ := ptrs.free
  have tail := ptrs.storage.tail
  have checked : rb.xCheckItemFits n = rb.prvCheckItemFitsDefault n := by
    unfold Ringbuffer.xCheckItemFits
    cases type : rb.type with
    | noSplit => rfl
    | allowSplit => rfl
    | byteBuf => exact absurd type ptrs.storage.items
  rw [checked]
  unfold Ringbuffer.prvCheckItemFitsDefault configASSERT ItemFits
  have inBounds : rb.writeInBounds := ⟨low, by omega⟩
  have alignedW : rbAligned rb.pucWrite := aligned
  rw [if_pos alignedW, if_pos inBounds]
  refine ⟨_, rfl, ?_⟩
  have headerSize : rbHEADER_SIZE = 8 := rfl
  generalize rbALIGN_SIZE n = z
  rcases Nat.lt_trichotomy rb.pucWrite rb.pucFree with before | same | behind
  · rw [if_neg (by omega), if_pos before, decide_eq_true_eq]
    omega
  · rw [if_pos same]
    cases full : rb.full with
    | true =>
        refine iff_of_false (by decide) ?_
        rintro (⟨_, other⟩ | ⟨less, _⟩ | ⟨more, _⟩)
        · cases other
        · omega
        · omega
    | false => exact iff_of_true rfl (Or.inl ⟨same, rfl⟩)
  · rw [if_neg (by omega), if_neg (by omega)]
    by_cases front : z + rbHEADER_SIZE ≤ rb.pucTail - rb.pucWrite
    · rw [if_pos front]
      exact iff_of_true rfl (Or.inr (Or.inr ⟨behind, Or.inl (by omega)⟩))
    · rw [if_neg front]
      cases type : rb.type with
      | noSplit =>
          rw [if_neg (by decide), decide_eq_true_eq]
          simp only [reduceCtorEq, false_and, true_and, false_or]
          omega
      | allowSplit =>
          rw [if_pos rfl, decide_eq_true_eq]
          simp only [reduceCtorEq, false_and, true_and, or_false]
          omega
      | byteBuf => exact absurd type ptrs.storage.items

theorem markFull_pointers (storage : ItemStorage rb.type rb.pucHead rb.pucTail rb.xSize rb.xMaxItemSize)
    (write : HeaderSlot rb.pucHead rb.pucTail rb.pucWrite) (free : HeaderSlot rb.pucHead rb.pucTail rb.pucFree)
    (notFull : rb.full = false) : ItemPointers rb.markFull := by
  unfold Ringbuffer.markFull
  by_cases same : rb.pucWrite = rb.pucFree
  · rw [if_pos same]
    exact ⟨storage, write, free, fun _ => same⟩
  · rw [if_neg same]
    refine ⟨storage, write, free, ?_⟩
    intro full
    rw [notFull] at full
    cases full

theorem writeItem_pointers (storage : ItemStorage rb.type rb.pucHead rb.pucTail rb.xSize rb.xMaxItemSize)
    (low : rb.pucHead ≤ rb.pucWrite) (aligned : rb.pucWrite % 4 = 0)
    (free : HeaderSlot rb.pucHead rb.pucTail rb.pucFree) (notFull : rb.full = false) {item : List (BitVec 8)} {z : Nat}
    (whole : z % 4 = 0) (fits : rb.pucWrite + 8 + z ≤ rb.pucTail) : ItemPointers (rb.writeItem item z).markFull := by
  have tail := storage.tail
  have enough := storage.enough
  have head := storage.head
  refine markFull_pointers storage ?_ free notFull
  change HeaderSlot rb.pucHead rb.pucTail
    (if rb.pucTail - (rb.pucWrite + 8 + z) < 8 then rb.pucHead else rb.pucWrite + 8 + z)
  split
  · exact ⟨Nat.le_refl _, by omega, head⟩
  · exact ⟨by omega, by omega, by omega⟩

theorem largest_item (storage : ItemStorage rb.type rb.pucHead rb.pucTail rb.xSize rb.xMaxItemSize) {n : Nat} (small : n ≤ rb.xMaxItemSize) :
    (rb.type = .noSplit → rbALIGN_SIZE n + 8 ≤ rbALIGN_SIZE (rb.xSize / 2)) ∧
      (rb.type = .allowSplit → rbALIGN_SIZE n + 16 ≤ rb.xSize) := by
  have whole := storage.whole
  have enough := storage.enough
  constructor
  · intro type
    rw [storage.noSplit type] at small
    change n ≤ rbALIGN_SIZE (rb.xSize / 2) - 8 at small
    simp only [alignSize_eq] at small ⊢
    omega
  · intro type
    have enoughSplit := storage.enoughSplit type
    rw [storage.allowSplit type] at small
    change n ≤ rb.xSize - 16 at small
    rw [alignSize_eq]
    omega

theorem itemCopy_pointers (ptrs : ItemPointers rb) {item : List (BitVec 8)} (small : item.length ≤ rb.xMaxItemSize)
    (fits : ItemFits rb item.length) : ∃ rb', rb.vCopyItem item = some rb' ∧ ItemPointers rb' := by
  obtain ⟨low, room, aligned⟩ := ptrs.write
  obtain ⟨lowF, roomF, alignedF⟩ := ptrs.free
  have storage := ptrs.storage
  have tail := storage.tail
  have enough := storage.enough
  have head := storage.head
  have sizeWhole := storage.whole
  have whole : rbALIGN_SIZE item.length % 4 = 0 := by
    rw [alignSize_eq]
    omega
  have most := largest_item storage small
  have notFull : rb.full = false := by
    cases full : rb.full with
    | false => rfl
    | true =>
        have same := ptrs.full full
        rcases fits with ⟨_, other⟩ | ⟨less, _⟩ | ⟨more, _⟩
        · rw [full] at other
          cases other
        · omega
        · omega
  have inBounds : rb.writeInBounds := ⟨low, by omega⟩
  have alignedW : rbAligned rb.pucWrite := aligned
  have header : rb.pucTail - rb.pucWrite ≥ rbHEADER_SIZE := by
    change 8 ≤ rb.pucTail - rb.pucWrite
    omega
  unfold ItemFits at fits
  generalize aligns : rbALIGN_SIZE item.length = z at whole most fits
  cases type : rb.type with
  | noSplit =>
      have half := most.1 type
      rw [alignSize_eq] at half
      unfold Ringbuffer.vCopyItem Ringbuffer.prvCopyItemNoSplit configASSERT
      have typed := storage
      rw [type] at typed
      rw [type]
      dsimp only
      rw [if_pos alignedW, if_pos inBounds, if_pos header, aligns]
      refine ⟨_, rfl, ?_⟩
      change ItemPointers (Ringbuffer.writeItem (if rb.pucTail - rb.pucWrite < z + 8 then _ else rb) item z).markFull
      by_cases wraps : rb.pucTail - rb.pucWrite < z + 8
      · rw [if_pos wraps]
        refine writeItem_pointers ?_ ?_ ?_ ?_ ?_ whole ?_
        · exact typed
        · exact Nat.le_refl _
        · exact head
        · exact ptrs.free
        · exact notFull
        change rb.pucHead + 8 + z ≤ rb.pucTail
        omega
      · rw [if_neg wraps]
        exact writeItem_pointers storage low aligned ptrs.free notFull whole (by omega)
  | allowSplit =>
      have all := most.2 type
      unfold Ringbuffer.vCopyItem Ringbuffer.prvCopyItemAllowSplit configASSERT
      rw [type]
      dsimp only
      rw [if_pos alignedW, if_pos inBounds, if_pos header, aligns]
      refine ⟨_, rfl, ?_⟩
      change ItemPointers (if rb.pucTail - rb.pucWrite < z + 8 then _ else (rb.writeItem item z).markFull)
      by_cases wraps : rb.pucTail - rb.pucWrite < z + 8
      · rw [if_pos wraps]
        have second : rb.pucHead + 8 + (z - (rb.pucTail - rb.pucWrite - 8)) ≤ rb.pucTail := by
          rcases fits with ⟨same, _⟩ | ⟨less, _⟩ | ⟨more, front | ⟨_, split⟩ | ⟨other, _⟩⟩
          · omega
          · omega
          · omega
          · omega
          · rw [type] at other
            cases other
        have parts : (z - (rb.pucTail - rb.pucWrite - 8)) % 4 = 0 := by omega
        unfold Ringbuffer.writeFirstPart
        dsimp only
        split
        all_goals
          refine writeItem_pointers ?_ ?_ ?_ ?_ ?_ parts second
          · exact storage
          · exact Nat.le_refl _
          · exact head
          · exact ptrs.free
          · exact notFull
      · rw [if_neg wraps]
        exact writeItem_pointers storage low aligned ptrs.free notFull whole (by omega)
  | byteBuf => exact absurd type storage.items

theorem moveFree_pointers (storage : ItemStorage rb.type rb.pucHead rb.pucTail rb.xSize rb.xMaxItemSize)
    (free : HeaderSlot rb.pucHead rb.pucTail rb.pucFree) {fuel : Nat} {rb' : Ringbuffer}
    (moved : Ringbuffer.moveFree fuel rb = some rb') :
    ∃ m f, rb' = { rb with memory := m, pucFree := f } ∧ HeaderSlot rb.pucHead rb.pucTail f := by
  have head := storage.head
  have tail := storage.tail
  have enough := storage.enough
  have atHead : HeaderSlot rb.pucHead rb.pucTail rb.pucHead := ⟨Nat.le_refl _, by omega, head⟩
  induction fuel generalizing rb with
  | zero => cases moved
  | succ fuel ih =>
      unfold Ringbuffer.moveFree at moved
      dsimp only at moved
      by_cases passes : (Ringbuffer.headerFree (uxItemFlags rb.memory rb.pucFree) = true ∨
          Ringbuffer.headerDummy (uxItemFlags rb.memory rb.pucFree) = true) ∧ rb.pucFree ≠ rb.pucRead
      · rw [if_pos passes] at moved
        by_cases dummy : Ringbuffer.headerDummy (uxItemFlags rb.memory rb.pucFree) = true
        · rw [if_pos dummy] at moved
          obtain ⟨m, f, rfl, slot⟩ := ih (by exact storage) (by exact atHead) moved head tail enough atHead
          exact ⟨m, f, rfl, slot⟩
        · rw [if_neg dummy] at moved
          unfold configASSERT at moved
          split at moved
          · next inside =>
              have slot : HeaderSlot rb.pucHead rb.pucTail
                  (if rb.pucTail - (rb.pucFree + (rbALIGN_SIZE (xItemLen rb.memory rb.pucFree) + rbHEADER_SIZE)) <
                    rbHEADER_SIZE then rb.pucHead
                  else rb.pucFree + (rbALIGN_SIZE (xItemLen rb.memory rb.pucFree) + rbHEADER_SIZE)) := by
                obtain ⟨low, room, aligned⟩ := free
                have headerSize : rbHEADER_SIZE = 8 := rfl
                rw [alignSize_eq] at inside ⊢
                split
                · exact atHead
                · exact ⟨by omega, by omega, by omega⟩
              obtain ⟨m, f, rfl, slot⟩ := ih (by exact storage) (by exact slot) moved head tail enough atHead
              exact ⟨m, f, rfl, slot⟩
          · cases moved
      · rw [if_neg passes] at moved
        cases moved
        exact ⟨_, _, rfl, free⟩

theorem itemReturn_pointers (ptrs : ItemPointers rb) {p : Nat} {rb' : Ringbuffer}
    (returned : rb.vReturnItem p = some rb') : ItemPointers rb' := by
  have unfolded : rb.prvReturnItemDefault p = some rb' := by
    unfold Ringbuffer.vReturnItem at returned
    cases type : rb.type with
    | noSplit =>
        rw [type] at returned
        exact returned
    | allowSplit =>
        rw [type] at returned
        exact returned
    | byteBuf => exact absurd type ptrs.storage.items
  obtain ⟨_, unfolded⟩ := asserted unfolded
  obtain ⟨_, unfolded⟩ := asserted unfolded
  obtain ⟨_, unfolded⟩ := asserted unfolded
  obtain ⟨_, unfolded⟩ := asserted unfolded
  obtain ⟨_, unfolded⟩ := asserted unfolded
  obtain ⟨_, unfolded⟩ := asserted unfolded
  obtain ⟨rb₁, moved, rfl⟩ := Option.map_eq_some_iff.mp unfolded
  obtain ⟨m, f, rfl, slot⟩ := moveFree_pointers (by exact ptrs.storage) (by exact ptrs.free) moved
  dsimp only
  split
  · exact ⟨ptrs.storage, ptrs.write, slot, fun full => by cases full⟩
  · next stays =>
      refine ⟨ptrs.storage, ptrs.write, slot, ?_⟩
      intro full
      by_contra apart
      exact stays ⟨full, Or.inl (Ne.symm apart)⟩

theorem itemGet_pointers (ptrs : ItemPointers rb) {most : Nat} {part : Part} {rb' : Ringbuffer}
    (got : rb.pvGetItem most = some (part, rb')) : ItemPointers rb' ∧ rb'.full = rb.full := by
  have unfolded : rb.prvGetItemDefault = some (part, rb') := by
    unfold Ringbuffer.pvGetItem at got
    cases type : rb.type with
    | noSplit =>
        rw [type] at got
        exact got
    | allowSplit =>
        rw [type] at got
        exact got
    | byteBuf => exact absurd type ptrs.storage.items
  obtain ⟨_, unfolded⟩ := asserted unfolded
  obtain ⟨_, unfolded⟩ := asserted unfolded
  obtain ⟨_, unfolded⟩ := asserted unfolded
  obtain ⟨_, unfolded⟩ := asserted unfolded
  obtain ⟨_, unfolded⟩ := asserted unfolded
  obtain ⟨_, unfolded⟩ := asserted unfolded
  cases unfolded
  exact ⟨⟨ptrs.storage, ptrs.write, ptrs.free, ptrs.full⟩, rfl⟩

structure Inside (pucHead pucTail p : Nat) : Prop where
  low : pucHead ≤ p
  high : p < pucTail

structure ByteStorage (type : RingbufType) (pucHead pucTail size maxItem : Nat) : Prop where
  bytes : type = .byteBuf
  tail : pucTail = pucHead + size
  most : maxItem = size

structure BytePointers (rb : Ringbuffer) : Prop where
  storage : ByteStorage rb.type rb.pucHead rb.pucTail rb.xSize rb.xMaxItemSize
  write : Inside rb.pucHead rb.pucTail rb.pucWrite
  read : Inside rb.pucHead rb.pucTail rb.pucRead
  free : Inside rb.pucHead rb.pucTail rb.pucFree
  full : rb.full = true → rb.pucWrite = rb.pucFree

def BytesFit (rb : Ringbuffer) (n : Nat) : Prop :=
  (rb.pucWrite = rb.pucFree ∧ rb.full = false) ∨ (rb.pucWrite < rb.pucFree ∧ rb.pucWrite + n ≤ rb.pucFree) ∨
    (rb.pucFree < rb.pucWrite ∧ rb.pucWrite + n ≤ rb.pucFree + rb.xSize)

theorem byteCheck (ptrs : BytePointers rb) (n : Nat) :
    ∃ fits, rb.xCheckItemFits n = some fits ∧ (fits = true ↔ BytesFit rb n) := by
  obtain ⟨low, high⟩ := ptrs.write
  obtain ⟨lowF, highF⟩ := ptrs.free
  have tail := ptrs.storage.tail
  have inBounds : rb.writeInBounds := ⟨low, high⟩
  unfold Ringbuffer.xCheckItemFits
  rw [ptrs.storage.bytes]
  dsimp only
  unfold Ringbuffer.prvCheckItemFitsByteBuffer configASSERT BytesFit
  rw [if_pos inBounds]
  refine ⟨_, rfl, ?_⟩
  rcases Nat.lt_trichotomy rb.pucWrite rb.pucFree with before | same | behind
  · rw [if_neg (by omega), if_pos before, decide_eq_true_eq]
    omega
  · rw [if_pos same]
    cases full : rb.full with
    | true =>
        refine iff_of_false (by decide) ?_
        rintro (⟨_, other⟩ | ⟨less, _⟩ | ⟨more, _⟩)
        · cases other
        · omega
        · omega
    | false => exact iff_of_true rfl (Or.inl ⟨same, rfl⟩)
  · rw [if_neg (by omega), if_neg (by omega), decide_eq_true_eq]
    omega

theorem bytesWritten_pointers (storage : ByteStorage rb.type rb.pucHead rb.pucTail rb.xSize rb.xMaxItemSize)
    (read : Inside rb.pucHead rb.pucTail rb.pucRead) (free : Inside rb.pucHead rb.pucTail rb.pucFree)
    (notFull : rb.full = false) (low : rb.pucHead ≤ rb.pucWrite) (high : rb.pucWrite ≤ rb.pucTail) :
    BytePointers (if rb.pucWrite = rb.pucTail then { rb with pucWrite := rb.pucHead } else rb).markFull := by
  have some_ := Nat.lt_of_le_of_lt read.low read.high
  unfold Ringbuffer.markFull
  by_cases atEnd : rb.pucWrite = rb.pucTail
  · rw [if_pos atEnd]
    dsimp only
    split
    · next same => exact ⟨storage, ⟨Nat.le_refl _, some_⟩, read, free, fun _ => same⟩
    · refine ⟨storage, ⟨Nat.le_refl _, some_⟩, read, free, ?_⟩
      intro full
      rw [notFull] at full
      cases full
  · rw [if_neg atEnd]
    have before : rb.pucWrite < rb.pucTail := by omega
    split
    · next same => exact ⟨storage, ⟨low, before⟩, read, free, fun _ => same⟩
    · refine ⟨storage, ⟨low, before⟩, read, free, ?_⟩
      intro full
      rw [notFull] at full
      cases full

theorem byteCopy_pointers (ptrs : BytePointers rb) {item : List (BitVec 8)} (small : item.length ≤ rb.xMaxItemSize)
    (fits : BytesFit rb item.length) : ∃ rb', rb.vCopyItem item = some rb' ∧ BytePointers rb' := by
  obtain ⟨low, high⟩ := ptrs.write
  obtain ⟨lowF, highF⟩ := ptrs.free
  have tail := ptrs.storage.tail
  have most := ptrs.storage.most
  have notFull : rb.full = false := by
    cases full : rb.full with
    | false => rfl
    | true =>
        have same := ptrs.full full
        rcases fits with ⟨_, other⟩ | ⟨less, _⟩ | ⟨more, _⟩
        · rw [full] at other
          cases other
        · omega
        · omega
  have inBounds : rb.writeInBounds := ⟨low, high⟩
  have copies : rb.vCopyItem item = rb.prvCopyItemByteBuf item := by
    unfold Ringbuffer.vCopyItem
    rw [ptrs.storage.bytes]
  rw [copies]
  unfold Ringbuffer.prvCopyItemByteBuf configASSERT
  rw [if_pos inBounds]
  refine ⟨_, rfl, ?_⟩
  dsimp only
  by_cases wraps : rb.pucTail - rb.pucWrite < item.length
  · rw [if_pos wraps]
    refine bytesWritten_pointers ?_ ?_ ?_ ?_ ?_ ?_
    · exact ptrs.storage
    · exact ptrs.read
    · exact ptrs.free
    · exact notFull
    · exact Nat.le_add_right _ _
    · change rb.pucHead + (item.drop (rb.pucTail - rb.pucWrite)).length ≤ rb.pucTail
      rw [List.length_drop]
      omega
  · rw [if_neg wraps]
    refine bytesWritten_pointers ?_ ?_ ?_ ?_ ?_ ?_
    · exact ptrs.storage
    · exact ptrs.read
    · exact ptrs.free
    · exact notFull
    · exact Nat.le_trans low (Nat.le_add_right _ _)
    · change rb.pucWrite + item.length ≤ rb.pucTail
      omega

theorem byteGet_pointers (ptrs : BytePointers rb) {most : Nat} {part : Part} {rb' : Ringbuffer}
    (got : rb.pvGetItem most = some (part, rb')) : BytePointers rb' ∧ rb'.full = rb.full := by
  have unfolded : rb.prvGetItemByteBuf most = some (part, rb') := by
    unfold Ringbuffer.pvGetItem at got
    rw [ptrs.storage.bytes] at got
    exact got
  unfold Ringbuffer.prvGetItemByteBuf at unfolded
  dsimp only at unfolded
  obtain ⟨_, unfolded⟩ := asserted unfolded
  obtain ⟨_, unfolded⟩ := asserted unfolded
  obtain ⟨_, unfolded⟩ := asserted unfolded
  have write := ptrs.write
  have read := ptrs.read
  have atHead : Inside rb.pucHead rb.pucTail rb.pucHead := ⟨Nat.le_refl _, Nat.lt_of_le_of_lt read.low read.high⟩
  by_cases wraps : rb.pucRead > rb.pucWrite ∨ rb.full = true
  · simp only [if_pos wraps] at unfolded
    by_cases all : most = 0 ∨ rb.pucTail - rb.pucRead ≤ most
    · rw [if_pos all] at unfolded
      cases unfolded
      exact ⟨⟨ptrs.storage, write, atHead, ptrs.free, ptrs.full⟩, rfl⟩
    · rw [if_neg all] at unfolded
      cases unfolded
      have low := read.low
      refine ⟨⟨ptrs.storage, write, ⟨?_, ?_⟩, ptrs.free, ptrs.full⟩, rfl⟩
      · change rb.pucHead ≤ rb.pucRead + most
        omega
      · change rb.pucRead + most < rb.pucTail
        omega
  · simp only [if_neg wraps] at unfolded
    by_cases all : most = 0 ∨ rb.pucWrite - rb.pucRead ≤ most
    · rw [if_pos all] at unfolded
      cases unfolded
      exact ⟨⟨ptrs.storage, write, write, ptrs.free, ptrs.full⟩, rfl⟩
    · rw [if_neg all] at unfolded
      cases unfolded
      have low := read.low
      have high := write.high
      refine ⟨⟨ptrs.storage, write, ⟨?_, ?_⟩, ptrs.free, ptrs.full⟩, rfl⟩
      · change rb.pucHead ≤ rb.pucRead + most
        omega
      · change rb.pucRead + most < rb.pucTail
        omega

theorem byteReturn_pointers (ptrs : BytePointers rb) {p : Nat} {rb' : Ringbuffer}
    (returned : rb.vReturnItem p = some rb') : BytePointers rb' := by
  have unfolded : rb.prvReturnItemByteBuf p = some rb' := by
    unfold Ringbuffer.vReturnItem at returned
    rw [ptrs.storage.bytes] at returned
    exact returned
  unfold Ringbuffer.prvReturnItemByteBuf at unfolded
  obtain ⟨_, unfolded⟩ := asserted unfolded
  obtain ⟨_, unfolded⟩ := asserted unfolded
  cases unfolded
  exact ⟨ptrs.storage, ptrs.write, ptrs.read, ptrs.read, fun full => by cases full⟩

inductive Pointers (rb : Ringbuffer) : Prop where
  | items (ptrs : ItemPointers rb)
  | bytes (ptrs : BytePointers rb)

theorem freeSize_known (tail : rb.pucTail = rb.pucHead + rb.xSize) (write : Inside rb.pucHead rb.pucTail rb.pucWrite)
    (free : Inside rb.pucHead rb.pucTail rb.pucFree) :
    ∃ size, rb.prvGetFreeSize = some size ∧ (0 < size ↔ rb.full = false) := by
  obtain ⟨low, high⟩ := write
  obtain ⟨lowF, highF⟩ := free
  unfold Ringbuffer.prvGetFreeSize
  cases full : rb.full with
  | true => exact ⟨0, rfl, by decide⟩
  | false =>
      simp only [Bool.false_eq_true, if_false, iff_true]
      unfold configASSERT
      by_cases wraps : (rb.pucFree : Int) - rb.pucWrite ≤ 0
      · rw [if_pos wraps, if_pos (by omega)]
        exact ⟨_, rfl, by omega⟩
      · rw [if_neg wraps, if_pos (by omega)]
        exact ⟨_, rfl, by omega⟩

theorem ItemPointers.within (ptrs : ItemPointers rb) :
    Inside rb.pucHead rb.pucTail rb.pucWrite ∧ Inside rb.pucHead rb.pucTail rb.pucFree := by
  obtain ⟨low, room, _⟩ := ptrs.write
  obtain ⟨lowF, roomF, _⟩ := ptrs.free
  exact ⟨⟨low, by omega⟩, ⟨lowF, by omega⟩⟩

theorem Pointers.freeSize (ptrs : Pointers rb) :
    ∃ size, rb.prvGetFreeSize = some size ∧ (0 < size ↔ rb.full = false) := by
  cases ptrs with
  | items ptrs => exact freeSize_known ptrs.storage.tail ptrs.within.1 ptrs.within.2
  | bytes ptrs => exact freeSize_known ptrs.storage.tail ptrs.write ptrs.free

theorem Pointers.checks (ptrs : Pointers rb) (n : Nat) : ∃ fits, rb.xCheckItemFits n = some fits := by
  cases ptrs with
  | items ptrs =>
      obtain ⟨fits, checked, _⟩ := itemCheck ptrs n
      exact ⟨fits, checked⟩
  | bytes ptrs =>
      obtain ⟨fits, checked, _⟩ := byteCheck ptrs n
      exact ⟨fits, checked⟩

theorem Pointers.copies (ptrs : Pointers rb) {item : List (BitVec 8)} (small : item.length ≤ rb.xMaxItemSize)
    (fits : rb.xCheckItemFits item.length = some true) : ∃ rb', rb.vCopyItem item = some rb' ∧ Pointers rb' := by
  cases ptrs with
  | items ptrs =>
      obtain ⟨ok, checked, iff⟩ := itemCheck ptrs item.length
      rw [checked] at fits
      obtain ⟨rb', copied, ptrs'⟩ := itemCopy_pointers ptrs small (iff.mp (Option.some.inj fits))
      exact ⟨rb', copied, .items ptrs'⟩
  | bytes ptrs =>
      obtain ⟨ok, checked, iff⟩ := byteCheck ptrs item.length
      rw [checked] at fits
      obtain ⟨rb', copied, ptrs'⟩ := byteCopy_pointers ptrs small (iff.mp (Option.some.inj fits))
      exact ⟨rb', copied, .bytes ptrs'⟩

theorem Pointers.gets (ptrs : Pointers rb) {most : Nat} {part : Part} {rb' : Ringbuffer}
    (got : rb.pvGetItem most = some (part, rb')) : Pointers rb' ∧ rb'.full = rb.full := by
  cases ptrs with
  | items ptrs =>
      have kept := itemGet_pointers ptrs got
      exact ⟨.items kept.1, kept.2⟩
  | bytes ptrs =>
      have kept := byteGet_pointers ptrs got
      exact ⟨.bytes kept.1, kept.2⟩

theorem Pointers.returns (ptrs : Pointers rb) {p : Nat} {rb' : Ringbuffer} (returned : rb.vReturnItem p = some rb') :
    Pointers rb' := by
  cases ptrs with
  | items ptrs => exact .items (itemReturn_pointers ptrs returned)
  | bytes ptrs => exact .bytes (byteReturn_pointers ptrs returned)

theorem Pointers.refuses (ptrs : Pointers rb) (full : rb.full = true) (n : Nat) : rb.xCheckItemFits n = some false := by
  obtain ⟨fits, checked⟩ := ptrs.checks n
  rw [checked]
  cases fits with
  | false => rfl
  | true =>
      cases ptrs with
      | items ptrs =>
          have same := ptrs.full full
          obtain ⟨_, checked', iff⟩ := itemCheck ptrs n
          rw [checked] at checked'
          rcases iff.mp (Option.some.inj checked').symm with ⟨_, other⟩ | ⟨less, _⟩ | ⟨more, _⟩
          · rw [full] at other
            cases other
          · omega
          · omega
      | bytes ptrs =>
          have same := ptrs.full full
          obtain ⟨_, checked', iff⟩ := byteCheck ptrs n
          rw [checked] at checked'
          rcases iff.mp (Option.some.inj checked').symm with ⟨_, other⟩ | ⟨less, _⟩ | ⟨more, _⟩
          · rw [full] at other
            cases other
          · omega
          · omega

end

theorem alignSize_whole (n : Nat) : rbALIGN_SIZE n % 4 = 0 := by
  rw [alignSize_eq]
  omega

theorem create_pointers {type : RingbufType} (s : StorageOf type) : Pointers s.create := by
  have enough := s.enough
  have below := s.below
  have positive := s.positive
  have empty : s.create.full = true → s.create.pucWrite = s.create.pucFree := fun _ => rfl
  cases type with
  | noSplit =>
      change 12 ≤ rbALIGN_SIZE s.size at enough
      have slot : HeaderSlot s.head (s.head + rbALIGN_SIZE s.size) s.head := ⟨Nat.le_refl _, by omega, s.aligned⟩
      have storage : ItemStorage .noSplit s.head (s.head + rbALIGN_SIZE s.size) (rbALIGN_SIZE s.size)
          (rbALIGN_SIZE (rbALIGN_SIZE s.size / 2) - rbHEADER_SIZE) :=
        { items := by decide
          tail := rfl
          below := below
          head := s.aligned
          whole := alignSize_whole _
          enough := enough
          enoughSplit := by
            intro other
            cases other
          noSplit := fun _ => rfl
          allowSplit := by
            intro other
            cases other }
      exact .items ⟨storage, slot, slot, empty⟩
  | allowSplit =>
      change 16 ≤ rbALIGN_SIZE s.size at enough
      have slot : HeaderSlot s.head (s.head + rbALIGN_SIZE s.size) s.head := ⟨Nat.le_refl _, by omega, s.aligned⟩
      have storage : ItemStorage .allowSplit s.head (s.head + rbALIGN_SIZE s.size) (rbALIGN_SIZE s.size)
          (rbALIGN_SIZE s.size - rbHEADER_SIZE * 2) :=
        { items := by decide
          tail := rfl
          below := below
          head := s.aligned
          whole := alignSize_whole _
          enough := by omega
          enoughSplit := fun _ => enough
          noSplit := by
            intro other
            cases other
          allowSplit := fun _ => rfl }
      exact .items ⟨storage, slot, slot, empty⟩
  | byteBuf =>
      change 0 < s.size at enough
      have atHead : Inside s.head (s.head + s.size) s.head := ⟨Nat.le_refl _, by omega⟩
      exact .bytes ⟨⟨rfl, rfl, rfl⟩, atHead, atHead, atHead, empty⟩

end EspFirmware.Proof.Rtos
