import EspFirmware.Proof.Rtos.Blocks

/-!
The invariant of a byte buffer: from the free pointer on lie the bytes that a reader holds, then those that wait,
then free space.
-/

namespace EspFirmware.Proof.Rtos
open EspFirmware.Lib Lib.Memory EspFirmware.Rtos EspFirmware.Spec

def ringLoad (m : Lib.Memory) (head S p n : Nat) : List (BitVec 8) := (List.range n).map fun i => m (head + advance S p i)

section
variable {m m' : Lib.Memory} {head S p i j n : Nat}

theorem length_ringLoad (m : Lib.Memory) (head S p n : Nat) : (ringLoad m head S p n).length = n := by
  rw [ringLoad, List.length_map, List.length_range]

theorem ringLoad_straight (before : p + n ≤ S) : ringLoad m head S p n = load m (head + p) n := by
  unfold ringLoad load
  apply List.map_congr_left
  intro i member
  have inside := List.mem_range.mp member
  rw [advance_of_lt (by omega), Nat.add_assoc]

theorem ringLoad_append (inside : p < S) (room : i + j ≤ S) :
    ringLoad m head S p (i + j) = ringLoad m head S p i ++ ringLoad m head S (advance S p i) j := by
  unfold ringLoad
  rw [List.range_add, List.map_append, List.map_map]
  congr 1
  apply List.map_congr_left
  intro k member
  have less := List.mem_range.mp member
  rw [Function.comp_apply, advance_advance inside (by omega)]

theorem ringLoad_congr (same : ∀ i < n, m' (head + advance S p i) = m (head + advance S p i)) :
    ringLoad m' head S p n = ringLoad m head S p n := by
  apply List.map_congr_left
  intro i member
  exact same i (List.mem_range.mp member)

def ringStore (m : Lib.Memory) (head S p : Nat) (bytes : List (BitVec 8)) : Lib.Memory :=
  if S - p < bytes.length then store (store m (head + p) (bytes.take (S - p))) head (bytes.drop (S - p))
  else store m (head + p) bytes

theorem ringLoad_ringStore {bytes : List (BitVec 8)} (inside : p < S) (room : bytes.length ≤ S) :
    ringLoad (ringStore m head S p bytes) head S p bytes.length = bytes := by
  unfold ringStore
  by_cases wraps : S - p < bytes.length
  · rw [if_pos wraps]
    have whole : bytes.length = (S - p) + (bytes.length - (S - p)) := by omega
    have front : (bytes.take (S - p)).length = S - p := by rw [List.length_take]; omega
    have back : (bytes.drop (S - p)).length = bytes.length - (S - p) := List.length_drop
    have wrapped : advance S p (S - p) = 0 := by
      unfold advance
      rw [if_neg (by omega)]
      omega
    rw [whole, ringLoad_append inside (by omega), ringLoad_straight (by omega), wrapped,
      ringLoad_straight (by omega), Nat.add_zero]
    have first : load (store (store m (head + p) (bytes.take (S - p))) head (bytes.drop (S - p))) (head + p) (S - p) =
        bytes.take (S - p) := by
      rw [load_congr fun x low high => store_other _ (.inr (by rw [back]; omega))]
      have stored := load_store m (head + p) (bytes.take (S - p))
      rw [front] at stored
      exact stored
    have second := load_store (store m (head + p) (bytes.take (S - p))) head (bytes.drop (S - p))
    rw [back] at second
    rw [first, second, List.take_append_drop]
  · rw [if_neg wraps, ringLoad_straight (by omega), load_store]

theorem ringStore_other {bytes : List (BitVec 8)} {k : Nat} (inside : p < S) (less : k < S) (later : bytes.length ≤ k) :
    ringStore m head S p bytes (head + advance S p k) = m (head + advance S p k) := by
  have lt := advance_lt (k := k) inside (by omega)
  unfold ringStore
  by_cases wraps : S - p < bytes.length
  · rw [if_pos wraps]
    have front : (bytes.take (S - p)).length = S - p := by rw [List.length_take]; omega
    have back : (bytes.drop (S - p)).length = bytes.length - (S - p) := List.length_drop
    have place : advance S p k = p + k - S := if_neg (by omega)
    rw [store_other _ (.inr (by rw [back]; omega)), store_other _ (.inl (by omega))]
  · rw [if_neg wraps]
    apply store_other
    unfold advance
    split <;> omega

end

structure ByteRing (rb : Ringbuffer) (F t : Nat) (bytes : List (BitVec 8)) : Prop where
  type : rb.type = .byteBuf
  tail : rb.pucTail = rb.pucHead + rb.xSize
  max : rb.xMaxItemSize = rb.xSize
  inside : F < rb.xSize
  room : t + bytes.length ≤ rb.xSize
  free : rb.pucFree = rb.pucHead + F
  read : rb.pucRead = rb.pucHead + advance rb.xSize F t
  write : rb.pucWrite = rb.pucHead + advance rb.xSize F (t + bytes.length)
  full : rb.full = decide (t + bytes.length = rb.xSize)
  count : rb.xItemsWaiting = bytes.length
  data : ringLoad rb.memory rb.pucHead rb.xSize (advance rb.xSize F t) bytes.length = bytes

theorem create_bytes {size : Nat} (some_ : 0 < size) (head : Nat) (memory : Lib.Memory) :
    ByteRing (xRingbufferCreate size .byteBuf head memory) 0 0 [] := by
  have zero : advance size 0 0 = 0 := advance_zero some_
  refine ⟨rfl, rfl, rfl, some_, Nat.zero_le _, rfl, ?_, ?_, ?_, rfl, rfl⟩
  · show head = head + advance size 0 0
    rw [zero, Nat.add_zero]
  · show head = head + advance size 0 0
    rw [zero, Nat.add_zero]
  · refine (decide_eq_false ?_).symm
    show ¬ 0 = size
    omega

section
variable {rb : Ringbuffer} {F t : Nat} {bytes : List (BitVec 8)}

theorem bytes_fit (ring : ByteRing rb F t bytes) {len : Nat} (some_ : 0 < len) (small : len ≤ rb.xMaxItemSize) :
    rb.xCheckItemFits len = some (decide (t + bytes.length + len ≤ rb.xSize)) := by
  have inside := ring.inside
  have room := ring.room
  have free := ring.free
  have write := ring.write
  have max := ring.max
  have less := advance_lt inside room
  unfold Ringbuffer.xCheckItemFits
  rw [ring.type]
  dsimp only
  unfold Ringbuffer.prvCheckItemFitsByteBuffer configASSERT
  rw [if_pos (by unfold Ringbuffer.writeInBounds; rw [ring.tail]; omega)]
  congr 1
  have back := advance_eq_self inside room
  by_cases whole : rb.pucWrite = rb.pucFree
  · rw [if_pos whole, ring.full]
    rcases back.mp (by omega) with zero | all
    · rw [decide_eq_false (by omega), decide_eq_true (by omega)]
      rfl
    · rw [decide_eq_true all, decide_eq_false (by omega)]
      rfl
  · rw [if_neg whole]
    unfold advance at write
    split at write <;> split <;> (rw [decide_eq_decide]; omega)

theorem copyBytes_eq (ring : ByteRing rb F t bytes) {item : List (BitVec 8)}
    (fits : t + bytes.length + item.length ≤ rb.xSize) :
    rb.prvCopyItemByteBuf item =
      some { rb with
        memory := ringStore rb.memory rb.pucHead rb.xSize (advance rb.xSize F (t + bytes.length)) item
        xItemsWaiting := rb.xItemsWaiting + item.length
        pucWrite := rb.pucHead + advance rb.xSize F (t + bytes.length + item.length) }.markFull := by
  have inside := ring.inside
  have room := ring.room
  have less := advance_lt inside room
  have tail := ring.tail
  have write := ring.write
  have place := advance_advance inside fits
  unfold Ringbuffer.prvCopyItemByteBuf configASSERT
  rw [if_pos (by unfold Ringbuffer.writeInBounds; omega)]
  have left : rb.pucTail - rb.pucWrite = rb.xSize - advance rb.xSize F (t + bytes.length) := by omega
  dsimp only
  rw [left]
  unfold ringStore
  by_cases wraps : rb.xSize - advance rb.xSize F (t + bytes.length) < item.length
  · rw [if_pos wraps, if_pos wraps]
    unfold Ringbuffer.writeBytes
    have moved : rb.pucHead + (item.drop (rb.xSize - advance rb.xSize F (t + bytes.length))).length =
        rb.pucHead + advance rb.xSize F (t + bytes.length + item.length) := by
      rw [List.length_drop, ← place]
      generalize advance rb.xSize F (t + bytes.length) = w at *
      unfold advance
      rw [if_neg (by omega)]
      omega
    have counted : rb.xItemsWaiting + ((item.take (rb.xSize - advance rb.xSize F (t + bytes.length))).length : Int) +
        ((item.drop (rb.xSize - advance rb.xSize F (t + bytes.length))).length : Int) =
        rb.xItemsWaiting + item.length := by
      rw [List.length_drop, List.length_take]
      omega
    have short := advance_lt inside fits
    dsimp only
    rw [moved, counted, if_neg (by omega), write]
  · rw [if_neg wraps, if_neg wraps]
    unfold Ringbuffer.writeBytes
    dsimp only
    have moved : rb.pucHead + advance rb.xSize F (t + bytes.length) + item.length = rb.pucTail ∧
        advance rb.xSize F (t + bytes.length + item.length) = 0 ∨
        ¬ rb.pucHead + advance rb.xSize F (t + bytes.length) + item.length = rb.pucTail ∧
        advance rb.xSize F (t + bytes.length + item.length) =
          advance rb.xSize F (t + bytes.length) + item.length := by
      rw [← place]
      generalize advance rb.xSize F (t + bytes.length) = w at *
      unfold advance
      split <;> omega
    rw [write]
    rcases moved with ⟨wrapped, zero⟩ | ⟨straight, ahead⟩
    · rw [if_pos wrapped, zero]
      rfl
    · rw [if_neg straight, ahead, ← Nat.add_assoc]

theorem bytes_freeSize (ring : ByteRing rb F t bytes) : ∃ size, rb.prvGetFreeSize = some size := by
  have inside := ring.inside
  have less := advance_lt inside ring.room
  have free := ring.free
  have write := ring.write
  unfold Ringbuffer.prvGetFreeSize configASSERT
  dsimp only
  rw [if_pos]
  · exact ⟨_, rfl⟩
  · split
    · exact Nat.zero_le _
    · split <;> omega

theorem bytes_send (ring : ByteRing rb F t bytes) (item : List (BitVec 8)) :
    rb.xRingbufferSend item = some (false, rb) ∨
      ∃ rb', rb.xRingbufferSend item = some (true, rb') ∧ SameRing rb rb' ∧ ByteRing rb' F t (bytes ++ item) ∧
        ∀ i < t + bytes.length,
          rb'.memory (rb.pucHead + advance rb.xSize F i) = rb.memory (rb.pucHead + advance rb.xSize F i) := by
  have inside := ring.inside
  unfold Ringbuffer.xRingbufferSend
  by_cases tooLong : item.length > rb.xMaxItemSize
  · rw [if_pos tooLong]
    exact .inl rfl
  rw [if_neg tooLong]
  by_cases empty : item.length = 0
  · rw [if_pos ⟨ring.type, empty⟩]
    refine .inr ⟨rb, rfl, ⟨rfl, rfl, rfl, rfl, rfl⟩, ?_, fun i _ => rfl⟩
    rw [List.length_eq_zero_iff.mp empty, List.append_nil]
    exact ring
  rw [if_neg (fun both => empty both.2), bytes_fit ring (by omega) (by omega), Option.bind_some]
  by_cases fits : t + bytes.length + item.length ≤ rb.xSize
  · right
    rw [decide_eq_true fits, if_pos rfl]
    have copy : rb.vCopyItem item = rb.prvCopyItemByteBuf item := by
      unfold Ringbuffer.vCopyItem
      rw [ring.type]
    have length : t + (bytes ++ item).length = t + bytes.length + item.length := by
      rw [List.length_append]
      omega
    have behind : ∀ i < t + bytes.length,
        ringStore rb.memory rb.pucHead rb.xSize (advance rb.xSize F (t + bytes.length)) item
          (rb.pucHead + advance rb.xSize F i) = rb.memory (rb.pucHead + advance rb.xSize F i) := by
      intro i less
      -- Seen from the write pointer, what is there already lies behind the new bytes.
      have place : advance rb.xSize F i =
          advance rb.xSize (advance rb.xSize F (t + bytes.length)) (rb.xSize - (t + bytes.length) + i) := by
        unfold advance
        split <;> split <;> split <;> omega
      rw [place]
      exact ringStore_other (advance_lt inside (by omega)) (by omega) (by omega)
    have added : ByteRing { rb with
        memory := ringStore rb.memory rb.pucHead rb.xSize (advance rb.xSize F (t + bytes.length)) item
        xItemsWaiting := rb.xItemsWaiting + item.length
        pucWrite := rb.pucHead + advance rb.xSize F (t + bytes.length + item.length)
        full := decide (t + (bytes ++ item).length = rb.xSize) } F t (bytes ++ item) := by
      refine ⟨ring.type, ring.tail, ring.max, inside, ?_, ring.free, ring.read, ?_, rfl, ?_, ?_⟩
      · rw [length]
        exact fits
      · rw [length]
      · show rb.xItemsWaiting + item.length = _
        rw [ring.count, List.length_append]
        omega
      · dsimp only
        rw [List.length_append, ringLoad_append (advance_lt inside (by omega)) (by omega),
          advance_advance inside (by omega), ringLoad_ringStore (advance_lt inside (by omega)) (by omega)]
        congr 1
        rw [ringLoad_congr, ring.data]
        intro i less
        rw [advance_advance inside (by omega)]
        exact behind (t + i) (by omega)
    obtain ⟨size, free⟩ := bytes_freeSize added
    have marked : { rb with
        memory := ringStore rb.memory rb.pucHead rb.xSize (advance rb.xSize F (t + bytes.length)) item
        xItemsWaiting := rb.xItemsWaiting + item.length
        pucWrite := rb.pucHead + advance rb.xSize F (t + bytes.length + item.length) }.markFull = { rb with
        memory := ringStore rb.memory rb.pucHead rb.xSize (advance rb.xSize F (t + bytes.length)) item
        xItemsWaiting := rb.xItemsWaiting + item.length
        pucWrite := rb.pucHead + advance rb.xSize F (t + bytes.length + item.length)
        full := decide (t + (bytes ++ item).length = rb.xSize) } := by
      have back := advance_eq_self inside fits
      have freeAt := ring.free
      unfold Ringbuffer.markFull
      dsimp only
      rw [length]
      by_cases whole : t + bytes.length + item.length = rb.xSize
      · rw [if_pos (by omega), decide_eq_true whole]
      · rw [if_neg (by omega), decide_eq_false whole, ring.full, decide_eq_false (by omega)]
    rw [copy, copyBytes_eq ring fits, marked, Option.bind_some, free]
    exact ⟨_, rfl, ⟨rfl, rfl, rfl, rfl, rfl⟩, added, behind⟩
  · rw [decide_eq_false fits]
    exact .inl rfl

theorem bytes_receive_nothing (ring : ByteRing rb F t bytes) (none_ : 0 < t ∨ bytes = []) (xMaxSize : Nat) :
    rb.prvReceiveGeneric false xMaxSize = some ([], rb) := by
  have inside := ring.inside
  have room := ring.room
  have back := @advance_eq_self rb.xSize F t inside (by omega)
  have read := ring.read
  have free := ring.free
  have count := ring.count
  have avail : rb.prvCheckItemAvail = false := by
    unfold Ringbuffer.prvCheckItemAvail
    by_cases outstanding : rb.pucRead ≠ rb.pucFree
    · rw [if_pos ⟨ring.type, outstanding⟩]
    · have nothing : bytes.length = 0 := by
        rcases none_ with some_ | rfl
        · omega
        · rfl
      have unread : ¬ rb.somethingToRead := by
        rintro ⟨some_, -⟩
        omega
      rw [if_neg (fun both => outstanding both.2), decide_eq_false unread]
  unfold Ringbuffer.prvReceiveGeneric
  rw [avail]
  rfl

theorem bytes_receive (ring : ByteRing rb F 0 bytes) (some_ : bytes ≠ []) (xMaxSize : Nat) :
    ∃ n rb' first rest, rb.prvReceiveGeneric false xMaxSize = some ([⟨rb.pucHead + F, n, false⟩], rb') ∧ 0 < n ∧
      F + n ≤ rb.xSize ∧ bytes = first ++ rest ∧ first = load rb.memory (rb.pucHead + F) n ∧ first.length = n ∧
      SameRing rb rb' ∧ rb'.memory = rb.memory ∧ ByteRing rb' F n rest := by
  have inside := ring.inside
  have room := ring.room
  rw [Nat.zero_add] at room
  have start := advance_zero inside
  have read := ring.read
  rw [start] at read
  have free := ring.free
  have write := ring.write
  rw [Nat.zero_add] at write
  have tail := ring.tail
  have full := ring.full
  rw [Nat.zero_add] at full
  have count := ring.count
  have more := List.length_pos_iff.mpr some_
  have back := advance_eq_self inside room
  have less := advance_lt inside room
  have available : rb.somethingToRead := by
    refine ⟨by omega, ?_⟩
    by_cases whole : bytes.length = rb.xSize
    · right
      rw [full]
      exact decide_eq_true whole
    · left
      omega
  -- Whether the bytes reach the end of the storage.
  have contiguous : ∃ n, (if rb.pucRead > rb.pucWrite ∨ rb.full = true then rb.pucTail else rb.pucWrite) - rb.pucRead = n ∧
      0 < n ∧ F + n ≤ rb.xSize ∧ n ≤ bytes.length ∧
      (if rb.pucRead > rb.pucWrite ∨ rb.full = true then rb.pucHead else rb.pucWrite) =
        rb.pucHead + advance rb.xSize F n := by
    have isFull : rb.full = true ↔ bytes.length = rb.xSize := by rw [full, decide_eq_true_eq]
    by_cases wraps : F + bytes.length < rb.xSize
    · have place : advance rb.xSize F bytes.length = F + bytes.length := if_pos wraps
      have straight : ¬ (rb.pucRead > rb.pucWrite ∨ rb.full = true) := by
        rw [isFull]
        omega
      refine ⟨bytes.length, ?_, more, by omega, Nat.le_refl _, ?_⟩
      · rw [if_neg straight]
        omega
      · rw [if_neg straight, write]
    · have place : advance rb.xSize F bytes.length = F + bytes.length - rb.xSize := if_neg wraps
      have end_ : advance rb.xSize F (rb.xSize - F) = 0 := by
        unfold advance
        rw [if_neg (by omega)]
        omega
      have wrapped : rb.pucRead > rb.pucWrite ∨ rb.full = true := by
        rw [isFull]
        omega
      refine ⟨rb.xSize - F, ?_, by omega, by omega, by omega, ?_⟩
      · rw [if_pos wrapped]
        omega
      · rw [if_pos wrapped, end_, Nat.add_zero]
  obtain ⟨all, here, allPos, allRoom, allMost, moved⟩ := contiguous
  -- What is read, whatever the number is.
  have taken {n : Nat} (pos : 0 < n) (most : n ≤ all) :
      ByteRing { rb with xItemsWaiting := rb.xItemsWaiting - n, pucRead := rb.pucHead + advance rb.xSize F n } F n
        (bytes.drop n) ∧ bytes.take n = load rb.memory (rb.pucHead + F) n := by
    have length : n + (bytes.drop n).length = bytes.length := by
      rw [List.length_drop]
      omega
    have parted := @ringLoad_append rb.memory rb.pucHead rb.xSize F n (bytes.length - n) inside (by omega)
    have whole := ring.data
    rw [show n + (bytes.length - n) = bytes.length by omega] at parted
    rw [start, parted] at whole
    have front := congrArg (List.take n) whole
    rw [List.take_left' (length_ringLoad ..)] at front
    have rest := congrArg (List.drop n) whole
    rw [List.drop_left' (length_ringLoad ..)] at rest
    refine ⟨⟨ring.type, tail, ring.max, inside, ?_, free, rfl, ?_, ?_, ?_, ?_⟩, ?_⟩
    · rw [length]
      exact room
    · rw [length]
      exact write
    · rw [length]
      exact full
    · show rb.xItemsWaiting - n = _
      rw [count]
      omega
    · rw [List.length_drop]
      exact rest
    · rw [← front, ringLoad_straight (by omega)]
  have get : rb.prvReceiveGeneric false xMaxSize =
      (rb.prvGetItemByteBuf xMaxSize).bind fun got => got.2.getSecondPart false got.1 := by
    have avail : rb.prvCheckItemAvail = true := by
      unfold Ringbuffer.prvCheckItemAvail
      rw [if_neg (fun both => both.2 (by omega)), decide_eq_true available]
    unfold Ringbuffer.prvReceiveGeneric Ringbuffer.pvGetItem
    rw [avail, if_pos rfl, ring.type]
  have one {rb' : Ringbuffer} {part : Part} : rb'.getSecondPart false part = some ([part], rb') := by
    unfold Ringbuffer.getSecondPart
    rw [if_neg (fun all => Bool.false_ne_true all.2.1)]
  rw [get]
  unfold Ringbuffer.prvGetItemByteBuf configASSERT
  dsimp only
  rw [if_pos available, if_pos (by unfold Ringbuffer.readInBounds; omega), if_pos (by omega), here, moved]
  by_cases everything : xMaxSize = 0 ∨ all ≤ xMaxSize
  · obtain ⟨ring', front⟩ := taken allPos (Nat.le_refl _)
    rw [if_pos everything, Option.bind_some, one, read]
    exact ⟨all, _, _, _, rfl, allPos, allRoom, (List.take_append_drop all bytes).symm, front,
      by rw [List.length_take]; omega, ⟨rfl, rfl, rfl, rfl, rfl⟩, rfl, ring'⟩
  · obtain ⟨ring', front⟩ := @taken xMaxSize (by omega) (by omega)
    rw [if_neg everything, Option.bind_some, one, read]
    rw [advance_of_lt (by omega), ← Nat.add_assoc] at ring'
    exact ⟨xMaxSize, _, _, _, rfl, by omega, by omega, (List.take_append_drop xMaxSize bytes).symm, front,
      by rw [List.length_take]; omega, ⟨rfl, rfl, rfl, rfl, rfl⟩, rfl, ring'⟩

theorem bytes_return (ring : ByteRing rb F t bytes) (some_ : 0 < t) {ptr : Nat} (low : rb.pucHead ≤ ptr)
    (high : ptr < rb.pucTail) :
    ∃ rb', rb.vReturnItem ptr = some rb' ∧ SameRing rb rb' ∧ rb'.memory = rb.memory ∧
      ByteRing rb' (advance rb.xSize F t) 0 bytes := by
  have inside := ring.inside
  have room := ring.room
  have less := @advance_lt rb.xSize F t inside (by omega)
  unfold Ringbuffer.vReturnItem
  rw [ring.type]
  dsimp only
  unfold Ringbuffer.prvReturnItemByteBuf configASSERT
  rw [if_pos low, if_pos high]
  refine ⟨_, rfl, ⟨rfl, rfl, rfl, rfl, rfl⟩, rfl, ⟨ring.type, ring.tail, ring.max, less, ?_, ?_, ?_, ?_, ?_,
    ring.count, ?_⟩⟩
  · show 0 + bytes.length ≤ rb.xSize
    omega
  · exact ring.read
  · dsimp only
    rw [advance_zero less]
    exact ring.read
  · dsimp only
    rw [advance_advance inside (by omega), Nat.zero_add]
    exact ring.write
  · refine (decide_eq_false ?_).symm
    show ¬ 0 + bytes.length = rb.xSize
    omega
  · dsimp only
    rw [advance_zero less]
    exact ring.data

end

end EspFirmware.Proof.Rtos
