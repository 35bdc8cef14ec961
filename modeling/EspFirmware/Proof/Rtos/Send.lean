import EspFirmware.Proof.Rtos.Blocks

/-!
Sending an item adds blocks behind the waiting ones and leaves all others as they are.
-/

namespace EspFirmware.Proof.Rtos
open EspFirmware.Lib Lib.Memory EspFirmware.Rtos EspFirmware.Spec

section
variable {rb : Ringbuffer} {F : Nat} {bs : List Blk}

structure RoomFor (rb : Ringbuffer) (F : Nat) (bs : List Blk) (b : Blk) : Prop where
  fits : after rb.xSize F bs + b.size ≤ rb.xSize
  room : spans rb.xSize F bs + span rb.xSize (after rb.xSize F bs) b ≤ rb.xSize

structure Added (rb rb' : Ringbuffer) (F : Nat) (bs new : List Blk) : Prop where
  same : SameRing rb rb'
  placed : Placed rb' F (bs ++ new)
  frame : ∀ x, InBlocks rb.pucHead rb.xSize F bs x → rb'.memory x = rb.memory x
  read : rb'.pucRead = rb.pucRead
  full : rb'.full = rb.full
  count : rb'.xItemsWaiting = rb.xItemsWaiting + (new.filter isItem).length

theorem Added.trans {rb' rb'' : Ringbuffer} {new new' : List Blk} (first : Added rb rb' F bs new)
    (second : Added rb' rb'' F (bs ++ new) new') : Added rb rb'' F bs (new ++ new') where
  same := first.same.trans second.same
  placed := by rw [← List.append_assoc]; exact second.placed
  frame x inside := by
    have later := second.frame x (by
      rw [first.same.head, first.same.size]
      exact inBlocks_append.mpr (.inl inside))
    exact later.trans (first.frame x inside)
  read := second.read.trans first.read
  full := second.full.trans first.full
  count := by rw [second.count, first.count, List.filter_append, List.length_append]; omega

theorem writeItem_added (placed : Placed rb F bs) {item : List (BitVec 8)} (small : item.length < 2 ^ 32)
    (room : RoomFor rb F bs (itemBlk item)) :
    Added rb (rb.writeItem item (rbALIGN_SIZE item.length)) F bs [itemBlk item] := by
  have same : SameRing rb (rb.writeItem item (rbALIGN_SIZE item.length)) := ⟨rfl, rfl, rfl, rfl, rfl⟩
  have tail := placed.geo.tail
  have write := placed.write
  have pushed := placed.push same room.fits room.room ?_ ?_ rfl ?_
  · exact ⟨same, pushed.1, pushed.2, rfl, rfl, rfl⟩
  · refine ⟨?_, ?_, load_store _ _ _⟩
    · have header := header_store (setItemFlags (setItemLen rb.memory rb.pucWrite item.length) rb.pucWrite 0)
        rb.pucWrite item
      exact header.1.trans ((xItemLen_setItemFlags _ _ _).trans (header_setItemLen _ small))
    · have header := header_store (setItemFlags (setItemLen rb.memory rb.pucWrite item.length) rb.pucWrite 0)
        rb.pucWrite item
      exact header.2.trans ((header_setItemFlags _ _ _).trans (itemBlk_flags item).symm)
  · intro x outside
    have size := size_bounds (itemBlk item)
    have data : (itemBlk item).data = item := rfl
    rw [data] at size
    have untouched := @header_other
    unfold Ringbuffer.writeItem
    dsimp only
    rw [store_other _ (by unfold rbHEADER_SIZE; omega), (untouched _ (by omega) 0 _).2,
      (untouched _ (by omega) _ 0).1]
  · have fits := room.fits
    rw [next_eq placed.writeValid room.fits rfl]
    unfold Ringbuffer.writeItem
    dsimp only
    have size : (itemBlk item).size = rbHEADER_SIZE + rbALIGN_SIZE item.length := rfl
    have place : rb.pucWrite + rbHEADER_SIZE + rbALIGN_SIZE item.length =
        rb.pucHead + (after rb.xSize F bs + (itemBlk item).size) := by
      rw [size, write]
      omega
    have left : rb.pucTail - (rb.pucHead + (after rb.xSize F bs + (itemBlk item).size)) =
        rb.xSize - (after rb.xSize F bs + (itemBlk item).size) := by
      rw [tail]
      omega
    rw [place, left]
    split <;> rfl

theorem roomFor_dummy (placed : Placed rb F bs) (free : spans rb.xSize F bs + (rb.xSize - after rb.xSize F bs) ≤ rb.xSize) :
    RoomFor rb F bs dummyBlk := by
  have valid := placed.writeValid.room
  have size : dummyBlk.size = 8 := rfl
  refine ⟨by omega, ?_⟩
  unfold span
  rw [if_pos (.inl rfl)]
  exact free

theorem wrapped_added (placed : Placed rb F bs) {b : Blk} {rb' : Ringbuffer} (same : SameRing rb rb')
    (room : RoomFor rb F bs b) (last : span rb.xSize (after rb.xSize F bs) b = rb.xSize - after rb.xSize F bs)
    (at_ : BlkAt rb'.memory rb.pucWrite b)
    (other : ∀ x, x < rb.pucWrite ∨ rb.pucWrite + b.size ≤ x → rb'.memory x = rb.memory x)
    (free : rb'.pucFree = rb.pucFree) (write : rb'.pucWrite = rb.pucHead) (read : rb'.pucRead = rb.pucRead)
    (full : rb'.full = rb.full) (count : rb'.xItemsWaiting = rb.xItemsWaiting + ([b].filter isItem).length) :
    Added rb rb' F bs [b] := by
  have valid := placed.writeValid.room
  have zero : next rb.xSize (after rb.xSize F bs) b = 0 := by
    unfold next advance
    rw [last, if_neg (by omega)]
    omega
  have pushed := placed.push same room.fits room.room at_ other free (by rw [write, zero, Nat.add_zero])
  exact ⟨same, pushed.1, pushed.2, read, full, count⟩

inductive Place (rb : Ringbuffer) (F L W z : Nat) : Prop
  | here (fits : W + z ≤ rb.xSize) (ahead : W = F + L ∨ (W + z ≤ F ∧ W + rb.xSize = F + L))
  | wrap (tooLong : rb.xSize < W + z) (ahead : W = F + L) (noSplit : rb.type = .noSplit → z ≤ F)
      (allowSplit : rb.type = .allowSplit → L + z + rbHEADER_SIZE ≤ rb.xSize)

theorem offset_cases {S F L W : Nat} (valid : Valid S F) (most : L ≤ S) (place : W = advance S F L) :
    (W = F ∧ (L = 0 ∨ L = S)) ∨ (F < W ∧ W = F + L) ∨ (W < F ∧ W + S = F + L) := by
  have room := valid.room
  unfold advance at place
  split at place <;> omega

theorem checkFits_place (placed : Placed rb F bs) (full : rb.full = decide (spans rb.xSize F bs = rb.xSize))
    {n : Nat} (small : n ≤ rb.xMaxItemSize) :
    ∃ fits, rb.prvCheckItemFitsDefault n = some fits ∧
      (fits = true → Place rb F (spans rb.xSize F bs) (after rb.xSize F bs) (rbHEADER_SIZE + rbALIGN_SIZE n)) := by
  have geo := placed.geo
  have validW := placed.writeValid
  have roomW := validW.room
  have alignedW := validW.aligned
  have alignedF := placed.valid.aligned
  have roomF := placed.valid.room
  have align := align_bounds n
  have alignHalf := align_bounds (rb.xSize / 2)
  have enough := geo.enough
  have whole := geo.whole
  have head := geo.aligned
  have cases := offset_cases placed.valid placed.room placed.after_eq
  unfold Ringbuffer.prvCheckItemFitsDefault configASSERT
  rw [if_pos (by unfold rbAligned; rw [placed.write]; omega), if_pos (by
    unfold Ringbuffer.writeInBounds; rw [placed.write, geo.tail]; omega)]
  refine ⟨_, rfl, ?_⟩
  rw [placed.write, placed.free, geo.tail]
  have halves : rb.type = .noSplit → rbALIGN_SIZE n ≤ rbALIGN_SIZE (rb.xSize / 2) - 8 := by
    intro type
    rw [geo.maximum.1 type] at small
    simp only [rbALIGN_SIZE, rbHEADER_SIZE] at small ⊢
    omega
  have wholes : rb.type = .allowSplit → rbALIGN_SIZE n ≤ rb.xSize - 16 := by
    intro type
    rw [geo.maximum.2 type] at small
    simp only [rbALIGN_SIZE, rbHEADER_SIZE] at small ⊢
    omega
  have half : rbALIGN_SIZE (rb.xSize / 2) = rb.xSize / 2 ∨ rbALIGN_SIZE (rb.xSize / 2) = rb.xSize / 2 + 2 := by
    unfold rbALIGN_SIZE
    omega
  generalize rbALIGN_SIZE n = z at *
  generalize after rb.xSize F bs = W at *
  generalize spans rb.xSize F bs = L at *
  unfold rbHEADER_SIZE
  intro fits
  rcases cases with ⟨rfl, empty | whole_⟩ | ⟨before, ahead⟩ | ⟨behind, ahead⟩
  · by_cases short : W + (8 + z) ≤ rb.xSize
    · exact .here short (.inl (by omega))
    · refine .wrap (by omega) (by omega) ?_ ?_
      · intro type
        have := halves type
        omega
      · intro type
        have := wholes type
        unfold rbHEADER_SIZE
        omega
  · rw [if_pos rfl, full, whole_] at fits
    simp at fits
  · rw [if_neg (by omega), if_neg (by omega)] at fits
    by_cases short : W + (8 + z) ≤ rb.xSize
    · exact .here short (.inl ahead)
    · rw [if_neg (by omega)] at fits
      refine .wrap (by omega) ahead ?_ ?_
      · intro type
        rw [type, if_neg (by decide)] at fits
        simp only [decide_eq_true_eq] at fits
        omega
      · intro type
        rw [if_pos type] at fits
        simp only [decide_eq_true_eq] at fits
        unfold rbHEADER_SIZE
        omega
  · rw [if_neg (by omega), if_pos (by omega)] at fits
    simp only [decide_eq_true_eq] at fits
    exact .here (by omega) (.inr ⟨by omega, ahead⟩)

inductive Carries : List Blk → List (BitVec 8) → Prop
  | item (data : List (BitVec 8)) : Carries [itemBlk data] data
  | behindDummy (data : List (BitVec 8)) : Carries [dummyBlk, itemBlk data] data
  | split (first second : List (BitVec 8)) : Carries [firstBlk first, itemBlk second] (first ++ second)

theorem roomFor_here (placed : Placed rb F bs) {item : List (BitVec 8)}
    (fits : after rb.xSize F bs + (rbHEADER_SIZE + rbALIGN_SIZE item.length) ≤ rb.xSize)
    (ahead : after rb.xSize F bs = F + spans rb.xSize F bs ∨
      (after rb.xSize F bs + (rbHEADER_SIZE + rbALIGN_SIZE item.length) ≤ F ∧
        after rb.xSize F bs + rb.xSize = F + spans rb.xSize F bs)) : RoomFor rb F bs (itemBlk item) := by
  have room := placed.valid.room
  have size : (itemBlk item).size = rbHEADER_SIZE + rbALIGN_SIZE item.length := rfl
  refine ⟨by rw [size]; exact fits, ?_⟩
  unfold span
  rw [size]
  unfold rbHEADER_SIZE at *
  split
  · rename_i last
    rcases last with dummy | short
    · cases dummy
    · omega
  · omega

theorem roomFor_head (placed : Placed rb F bs) {item : List (BitVec 8)} (atHead : after rb.xSize F bs = 0)
    (fits : rbHEADER_SIZE + rbALIGN_SIZE item.length ≤ F) (ahead : spans rb.xSize F bs = rb.xSize - F) :
    RoomFor rb F bs (itemBlk item) := by
  have room := placed.valid.room
  apply roomFor_here placed
  · rw [atHead]
    omega
  · right
    rw [atHead, ahead]
    omega

theorem RoomFor.after_wrap {b : Blk} {rb' : Ringbuffer} (added : Added rb rb' F bs [b])
    (last : span rb.xSize (after rb.xSize F bs) b = rb.xSize - after rb.xSize F bs)
    (ahead : after rb.xSize F bs = F + spans rb.xSize F bs) (placed : Placed rb F bs) :
    after rb'.xSize F (bs ++ [b]) = 0 ∧ spans rb'.xSize F (bs ++ [b]) = rb'.xSize - F := by
  have valid := placed.writeValid.room
  rw [added.same.size, after_append, spans_append]
  constructor
  · show next rb.xSize (after rb.xSize F bs) b = 0
    unfold next advance
    rw [last, if_neg (by omega)]
    omega
  · show spans rb.xSize F bs + (span rb.xSize (after rb.xSize F bs) b + 0) = rb.xSize - F
    omega

theorem copyNoSplit_added (placed : Placed rb F bs) (type : rb.type = .noSplit) {item : List (BitVec 8)}
    (small : item.length ≤ rb.xMaxItemSize)
    (place : Place rb F (spans rb.xSize F bs) (after rb.xSize F bs) (rbHEADER_SIZE + rbALIGN_SIZE item.length)) :
    ∃ rb' new, rb.prvCopyItemNoSplit item = some rb'.markFull ∧ Added rb rb' F bs new ∧ Carries new item ∧
      ∀ b ∈ new, b.split = false := by
  have geo := placed.geo
  have valid := placed.writeValid
  have room := valid.room
  have maximum := (max_lt geo).2
  have write := placed.write
  have tail := geo.tail
  have head := geo.aligned
  have aligned := valid.aligned
  have rem : rb.pucTail - rb.pucWrite = rb.xSize - after rb.xSize F bs := by omega
  unfold Ringbuffer.prvCopyItemNoSplit configASSERT
  dsimp only
  rw [if_pos (by unfold rbAligned; omega), if_pos (by unfold Ringbuffer.writeInBounds; omega),
    if_pos (by unfold rbHEADER_SIZE; omega), rem]
  cases place with
  | here fits ahead =>
      rw [if_neg (by omega)]
      refine ⟨_, _, rfl, writeItem_added placed (by omega) (roomFor_here placed fits ahead), .item item, ?_⟩
      intro b member
      rw [List.mem_singleton.mp member]
      rfl
  | wrap tooLong ahead noSplit =>
      rw [if_pos (by omega)]
      have dummyRoom := roomFor_dummy placed (by omega)
      have last : span rb.xSize (after rb.xSize F bs) dummyBlk = rb.xSize - after rb.xSize F bs := if_pos (.inl rfl)
      have wrapped := @wrapped_added rb F bs placed dummyBlk { rb with
        memory := setItemLen (setItemFlags rb.memory rb.pucWrite rbITEM_DUMMY_DATA_FLAG) rb.pucWrite 0
        pucWrite := rb.pucHead } ⟨rfl, rfl, rfl, rfl, rfl⟩ dummyRoom last ?_ ?_ rfl rfl rfl rfl ?_
      · obtain ⟨atHead, filled⟩ := RoomFor.after_wrap wrapped last ahead placed
        have item_ := writeItem_added wrapped.placed (by omega)
          (roomFor_head wrapped.placed atHead (noSplit type) filled)
        refine ⟨_, _, rfl, wrapped.trans item_, .behindDummy item, ?_⟩
        intro b member
        rcases List.mem_cons.mp member with rfl | later
        · rfl
        · rw [List.mem_singleton.mp later]
          rfl
      · refine ⟨header_setItemLen _ (by decide), ?_, rfl⟩
        dsimp only
        rw [uxItemFlags_setItemLen, header_setItemFlags, dummyBlk_flags]
      · intro x outside
        have size : dummyBlk.size = 8 := rfl
        rw [size] at outside
        dsimp only
        rw [(header_other _ outside 0 0).1, (header_other _ outside 0 _).2]
      · exact (Int.add_zero _).symm

theorem firstPart_lt {S W n : Nat} (valid : Valid S W) (whole : S % 4 = 0)
    (tooLong : S < W + (rbHEADER_SIZE + rbALIGN_SIZE n)) :
    (S - W - 8) % 4 = 0 ∧ S - W - 8 + 8 = S - W ∧ (S - W - 8 = 0 ∨ S - W - 8 < n) ∧
      rbALIGN_SIZE (n - (S - W - 8)) = rbALIGN_SIZE n - (S - W - 8) ∧ rbALIGN_SIZE (S - W - 8) = S - W - 8 := by
  obtain ⟨aligned, room⟩ := valid
  unfold rbALIGN_SIZE rbHEADER_SIZE at *
  omega

theorem writeFirstPart_added (placed : Placed rb F bs) {item : List (BitVec 8)} (small : item.length < 2 ^ 31)
    (tooLong : rb.xSize < after rb.xSize F bs + (rbHEADER_SIZE + rbALIGN_SIZE item.length))
    (ahead : after rb.xSize F bs = F + spans rb.xSize F bs) :
    ∃ b, Added rb (rb.writeFirstPart item) F bs [b] ∧
      span rb.xSize (after rb.xSize F bs) b = rb.xSize - after rb.xSize F bs ∧
      (b.split = true → after rb.xSize F bs + b.size = rb.xSize) ∧
      Carries [b, itemBlk (item.drop (rb.xSize - after rb.xSize F bs - 8))] item := by
  have geo := placed.geo
  have valid := placed.writeValid
  have room := valid.room
  have write := placed.write
  have tail := geo.tail
  obtain ⟨aligned, sum, shorter, -, align⟩ := firstPart_lt valid geo.whole tooLong
  have rem : rb.pucTail - rb.pucWrite - rbHEADER_SIZE = rb.xSize - after rb.xSize F bs - 8 := by
    unfold rbHEADER_SIZE
    omega
  unfold Ringbuffer.writeFirstPart
  rw [rem]
  dsimp only
  generalize part : rb.xSize - after rb.xSize F bs - 8 = k at *
  have header : uxItemFlags (setItemLen (setItemFlags rb.memory rb.pucWrite 0) rb.pucWrite k) rb.pucWrite = 0 := by
    rw [uxItemFlags_setItemLen, header_setItemFlags]
  by_cases more : k > 0
  · rw [if_pos more]
    have length : (item.take k).length = k := by
      rw [List.length_take]
      omega
    have size : (firstBlk (item.take k)).size = rb.xSize - after rb.xSize F bs := by
      show rbHEADER_SIZE + rbALIGN_SIZE (item.take k).length = _
      rw [length, align]
      unfold rbHEADER_SIZE
      omega
    have last : span rb.xSize (after rb.xSize F bs) (firstBlk (item.take k)) = rb.xSize - after rb.xSize F bs := by
      unfold span
      rw [size, ite_self]
    refine ⟨firstBlk (item.take k), wrapped_added placed ⟨rfl, rfl, rfl, rfl, rfl⟩ ⟨by omega, by omega⟩ last ?_ ?_
      rfl rfl rfl rfl rfl, last, fun _ => by omega, ?_⟩
    · have stored := header_store (setItemLen (setItemFlags rb.memory rb.pucWrite 0) rb.pucWrite k) rb.pucWrite
        (item.take k)
      refine ⟨?_, ?_, ?_⟩
      · dsimp only
        rw [xItemLen_setItemFlags, stored.1, header_setItemLen _ (by omega)]
        exact length.symm
      · dsimp only
        rw [header_setItemFlags, stored.2, header, firstBlk_flags]
        decide
      · dsimp only
        rw [load_setItemFlags]
        exact load_store _ _ _
    · intro x outside
      rw [size] at outside
      dsimp only
      rw [(header_other _ (by omega) 0 _).2, store_other _ (by rw [length]; unfold rbHEADER_SIZE; omega),
        (header_other _ (by omega) _ 0).1, (header_other _ (by omega) 0 _).2]
    · have both := Carries.split (item.take k) (item.drop k)
      rw [List.take_append_drop] at both
      exact both
  · rw [if_neg more]
    have none_ : k = 0 := by omega
    have last : span rb.xSize (after rb.xSize F bs) dummyBlk = rb.xSize - after rb.xSize F bs := if_pos (.inl rfl)
    refine ⟨dummyBlk, wrapped_added placed ⟨rfl, rfl, rfl, rfl, rfl⟩ (roomFor_dummy placed (by omega)) last ?_ ?_
      rfl rfl rfl rfl (Int.add_zero _).symm, last, nofun, ?_⟩
    · refine ⟨?_, ?_, rfl⟩
      · dsimp only
        rw [xItemLen_setItemFlags, header_setItemLen _ (by omega), none_]
        rfl
      · dsimp only
        rw [header_setItemFlags, header, dummyBlk_flags]
        decide
    · intro x outside
      have size : dummyBlk.size = 8 := rfl
      rw [size] at outside
      dsimp only
      rw [(header_other _ outside 0 _).2, (header_other _ outside _ 0).1, (header_other _ outside 0 _).2]
    · rw [none_, List.drop_zero]
      exact .behindDummy item

theorem copyAllowSplit_added (placed : Placed rb F bs) (type : rb.type = .allowSplit) {item : List (BitVec 8)}
    (small : item.length ≤ rb.xMaxItemSize)
    (place : Place rb F (spans rb.xSize F bs) (after rb.xSize F bs) (rbHEADER_SIZE + rbALIGN_SIZE item.length)) :
    ∃ rb' new, rb.prvCopyItemAllowSplit item = some rb'.markFull ∧ Added rb rb' F bs new ∧ Carries new item ∧
      Ends rb.xSize (after rb.xSize F bs) new := by
  have geo := placed.geo
  have valid := placed.writeValid
  have room := valid.room
  have maximum := (max_lt geo).2
  have write := placed.write
  have tail := geo.tail
  have head := geo.aligned
  have aligned := valid.aligned
  have rem : rb.pucTail - rb.pucWrite = rb.xSize - after rb.xSize F bs := by omega
  unfold Ringbuffer.prvCopyItemAllowSplit configASSERT
  dsimp only
  rw [if_pos (by unfold rbAligned; omega), if_pos (by unfold Ringbuffer.writeInBounds; omega),
    if_pos (by unfold rbHEADER_SIZE; omega), rem]
  cases place with
  | here fits ahead =>
      rw [if_neg (by omega)]
      exact ⟨_, _, rfl, writeItem_added placed (by omega) (roomFor_here placed fits ahead), .item item, nofun, trivial⟩
  | wrap tooLong ahead noSplit allowSplit =>
      have enough := allowSplit type
      rw [if_pos (by omega)]
      obtain ⟨b, first, last, ends, carried⟩ := writeFirstPart_added placed (by omega) tooLong ahead
      obtain ⟨-, sum, -, alignRest, -⟩ := firstPart_lt valid geo.whole tooLong
      obtain ⟨atHead, filled⟩ := RoomFor.after_wrap first last ahead placed
      have length : (item.drop (rb.xSize - after rb.xSize F bs - 8)).length =
          item.length - (rb.xSize - after rb.xSize F bs - 8) := List.length_drop
      have second := writeItem_added first.placed (by rw [length]; omega) (roomFor_head first.placed atHead (by
        rw [length, alignRest]
        unfold rbHEADER_SIZE at *
        omega) filled)
      rw [length, alignRest] at second
      refine ⟨_, _, rfl, first.trans second, carried, ?_, nofun, trivial⟩
      intro split
      refine ⟨?_, ends split⟩
      unfold rbHEADER_SIZE at *
      omega

theorem markFull_eq (rb : Ringbuffer) :
    rb.markFull = { rb with full := if rb.pucWrite = rb.pucFree then true else rb.full } := by
  unfold Ringbuffer.markFull
  split <;> rfl

theorem freeSize_ok (placed : Placed rb F bs) : ∃ size, rb.prvGetFreeSize = some size := by
  have free := placed.free
  have write := placed.write
  have roomF := placed.valid.room
  have roomW := placed.writeValid.room
  unfold Ringbuffer.prvGetFreeSize configASSERT
  dsimp only
  rw [if_pos]
  · exact ⟨_, rfl⟩
  · split
    · exact Nat.zero_le _
    · split <;> omega

theorem carries_lengths {new : List Blk} {item : List (BitVec 8)} (carried : Carries new item) :
    (∀ b ∈ new, b.data.length ≤ item.length) ∧ (∀ b ∈ new, b.freed = false) ∧ new ≠ [] := by
  cases carried with
  | item =>
      refine ⟨?_, ?_, nofun⟩
      · intro b member
        rw [List.mem_singleton.mp member]
        exact Nat.le_refl _
      · intro b member
        rw [List.mem_singleton.mp member]
        rfl
  | behindDummy =>
      refine ⟨?_, ?_, nofun⟩
      · intro b member
        rcases List.mem_cons.mp member with rfl | later
        · exact Nat.zero_le _
        · rw [List.mem_singleton.mp later]
          exact Nat.le_refl _
      · intro b member
        rcases List.mem_cons.mp member with rfl | later
        · rfl
        · rw [List.mem_singleton.mp later]
          rfl
  | split first second =>
      rw [List.length_append]
      refine ⟨?_, ?_, nofun⟩
      · intro b member
        rcases List.mem_cons.mp member with rfl | later
        · exact Nat.le_add_right _ _
        · rw [List.mem_singleton.mp later]
          exact Nat.le_add_left _ _
      · intro b member
        rcases List.mem_cons.mp member with rfl | later
        · rfl
        · rw [List.mem_singleton.mp later]
          rfl

theorem Added.markFull {rb' : Ringbuffer} {new : List Blk} (added : Added rb rb' F bs new) (some_ : new ≠ [])
    (full : rb.full = decide (spans rb.xSize F bs = rb.xSize)) :
    Placed rb'.markFull F (bs ++ new) ∧
      rb'.markFull.full = decide (spans rb'.xSize F (bs ++ new) = rb'.xSize) := by
  have placed := added.placed
  have roomF := placed.valid.room
  have spansNew := placed.room
  have more : spans rb.xSize F bs + 8 ≤ spans rb'.xSize F (bs ++ new) := by
    have fits := (fits_append.mp placed.fits).2
    have least := length_le_spans fits
    have nonempty := List.length_pos_iff.mpr some_
    rw [spans_append, added.same.size]
    rw [added.same.size] at least
    omega
  have back := @advance_eq_self rb'.xSize F _ (by omega) placed.room
  rw [← placed.after_eq] at back
  have meets : rb'.pucWrite = rb'.pucFree ↔ spans rb'.xSize F (bs ++ new) = rb'.xSize := by
    rw [placed.write, placed.free]
    omega
  rw [markFull_eq]
  refine ⟨⟨⟨placed.geo.items, placed.geo.enough, placed.geo.whole, placed.geo.aligned, placed.geo.tail,
    placed.geo.below, placed.geo.maximum⟩, placed.valid, placed.fits, placed.chain, placed.room, placed.free,
    placed.write⟩, ?_⟩
  dsimp only
  by_cases whole : spans rb'.xSize F (bs ++ new) = rb'.xSize
  · rw [if_pos (meets.mpr whole)]
    exact (decide_eq_true whole).symm
  · have size := added.same.size
    rw [if_neg (meets.not.mpr whole), added.full, full, decide_eq_false whole, decide_eq_false (by omega)]

end

section
variable {rb : Ringbuffer} {F : Nat} {taken waiting : List Blk}

theorem send_spec (inv : RingInv rb F taken waiting) (item : List (BitVec 8)) :
    rb.xRingbufferSend item = some (false, rb) ∨
      ∃ rb' new, rb.xRingbufferSend item = some (true, rb') ∧ Carries new item ∧ SameRing rb rb' ∧
        RingInv rb' F taken (waiting ++ new) ∧ (rb.type = .noSplit → ∀ b ∈ new, b.split = false) ∧
        ∀ x, InBlocks rb.pucHead rb.xSize F (taken ++ waiting) x → rb'.memory x = rb.memory x := by
  have items := inv.placed.geo.items
  unfold Ringbuffer.xRingbufferSend
  by_cases tooLong : item.length > rb.xMaxItemSize
  · rw [if_pos tooLong]
    exact .inl rfl
  rw [if_neg tooLong, if_neg (fun both => items both.1)]
  have small : item.length ≤ rb.xMaxItemSize := by omega
  obtain ⟨fits, checked, place⟩ := checkFits_place inv.placed inv.full small
  have check : rb.xCheckItemFits item.length = some fits := by
    unfold Ringbuffer.xCheckItemFits
    cases type : rb.type with
    | noSplit => exact checked
    | allowSplit => exact checked
    | byteBuf => exact absurd type items
  rw [check, Option.bind_some]
  cases fits with
  | false => exact .inl rfl
  | true =>
      right
      have copied : ∃ rb' new, rb.vCopyItem item = some rb'.markFull ∧ Added rb rb' F (taken ++ waiting) new ∧
          Carries new item ∧ (rb.type = .noSplit → ∀ b ∈ new, b.split = false) ∧
          Ends rb.xSize (after rb.xSize F (taken ++ waiting)) new := by
        unfold Ringbuffer.vCopyItem
        cases type : rb.type with
        | noSplit =>
            obtain ⟨rb', new, copy, added, carried, whole⟩ := copyNoSplit_added inv.placed type small (place rfl)
            exact ⟨rb', new, copy, added, carried, fun _ => whole, ends_of_whole whole⟩
        | allowSplit =>
            obtain ⟨rb', new, copy, added, carried, ends⟩ := copyAllowSplit_added inv.placed type small (place rfl)
            exact ⟨rb', new, copy, added, carried, nofun, ends⟩
        | byteBuf => exact absurd type items
      obtain ⟨rb', new, copy, added, carried, whole, ends⟩ := copied
      obtain ⟨lengths, unread, some_⟩ := carries_lengths carried
      obtain ⟨placed, full⟩ := added.markFull some_ inv.full
      obtain ⟨size, free⟩ := freeSize_ok placed
      rw [markFull_eq] at *
      rw [if_pos rfl, copy, Option.bind_some, free]
      refine ⟨_, new, rfl, carried, ⟨added.same.type, added.same.size, added.same.max, added.same.head,
        added.same.tail⟩, ⟨?_, ?_, ?_, ?_, ?_, ?_, ?_⟩, whole, added.frame⟩
      · rw [← List.append_assoc]
        exact placed
      · dsimp only
        rw [added.read, inv.read, added.same.head, added.same.size]
      · rw [← List.append_assoc]
        exact full
      · dsimp only
        rw [added.count, inv.count, List.filter_append, List.length_append]
        omega
      · dsimp only
        rw [added.same.max, ← List.append_assoc]
        intro b member
        rcases List.mem_append.mp member with old | fresh
        · exact inv.lengths b old
        · exact Nat.le_trans (lengths b fresh) small
      · intro b member
        rcases List.mem_append.mp member with old | fresh
        · exact inv.unread b old
        · exact unread b fresh
      · dsimp only
        rw [added.same.size, ends_append, ← after_append]
        exact ⟨inv.ends, ends⟩

end

end EspFirmware.Proof.Rtos
