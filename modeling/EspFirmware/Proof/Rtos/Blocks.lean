import Mathlib.Tactic.ByContra
import EspFirmware.Lib.Ring
import EspFirmware.Spec.Ringbuf

/-!
Blocks of a ring buffer: items behind their headers, one after the other around the ring. The last block before
the end of the storage reaches up to it.
-/

namespace EspFirmware.Proof.Rtos
open EspFirmware.Lib Lib.Memory EspFirmware.Rtos EspFirmware.Spec

structure Blk where
  data : List (BitVec 8)
  dummy : Bool
  split : Bool
  freed : Bool

def Blk.flags (b : Blk) : BitVec 32 :=
  (if b.freed then rbITEM_FREE_FLAG else 0) ||| (if b.dummy then rbITEM_DUMMY_DATA_FLAG else 0) |||
    (if b.split then rbITEM_SPLIT_FLAG else 0)

def Blk.size (b : Blk) : Nat := rbHEADER_SIZE + rbALIGN_SIZE b.data.length

def itemBlk (data : List (BitVec 8)) : Blk := ⟨data, false, false, false⟩

def dummyBlk : Blk := ⟨[], true, false, false⟩

def firstBlk (data : List (BitVec 8)) : Blk := ⟨data, false, true, false⟩

def Blk.returned (b : Blk) : Blk := { b with split := false, freed := true }

theorem itemBlk_flags (data : List (BitVec 8)) : (itemBlk data).flags = 0 := by
  show (0 : BitVec 32) ||| 0 ||| 0 = 0
  decide

theorem dummyBlk_flags : dummyBlk.flags = rbITEM_DUMMY_DATA_FLAG := by
  show (0 : BitVec 32) ||| rbITEM_DUMMY_DATA_FLAG ||| 0 = rbITEM_DUMMY_DATA_FLAG
  decide

theorem firstBlk_flags (data : List (BitVec 8)) : (firstBlk data).flags = rbITEM_SPLIT_FLAG := by
  show (0 : BitVec 32) ||| 0 ||| rbITEM_SPLIT_FLAG = rbITEM_SPLIT_FLAG
  decide

theorem flags_tests (freed dummy split : Bool) :
    let flags := (if freed then rbITEM_FREE_FLAG else 0) ||| (if dummy then rbITEM_DUMMY_DATA_FLAG else 0) |||
      (if split then rbITEM_SPLIT_FLAG else 0)
    Ringbuffer.headerFree flags = freed ∧ Ringbuffer.headerDummy flags = dummy ∧
      decide (flags &&& rbITEM_SPLIT_FLAG ≠ 0) = split ∧
      (flags &&& ~~~ rbITEM_SPLIT_FLAG) ||| rbITEM_FREE_FLAG =
        rbITEM_FREE_FLAG ||| (if dummy then rbITEM_DUMMY_DATA_FLAG else 0) ||| 0 := by
  revert freed dummy split
  decide

theorem flags_free (b : Blk) : Ringbuffer.headerFree b.flags = b.freed := (flags_tests _ _ _).1

theorem flags_dummy (b : Blk) : Ringbuffer.headerDummy b.flags = b.dummy := (flags_tests _ _ _).2.1

theorem flags_split (b : Blk) : decide (b.flags &&& rbITEM_SPLIT_FLAG ≠ 0) = b.split := (flags_tests _ _ _).2.2.1

theorem flags_returned (b : Blk) : (b.flags &&& ~~~ rbITEM_SPLIT_FLAG) ||| rbITEM_FREE_FLAG = b.returned.flags :=
  (flags_tests _ _ _).2.2.2

theorem align_bounds (n : Nat) : n ≤ rbALIGN_SIZE n ∧ rbALIGN_SIZE n < n + 4 ∧ rbALIGN_SIZE n % 4 = 0 := by
  unfold rbALIGN_SIZE
  omega

theorem size_bounds (b : Blk) : 8 ≤ b.size ∧ b.size % 4 = 0 ∧ b.data.length + 8 ≤ b.size := by
  have align := align_bounds b.data.length
  unfold Blk.size rbHEADER_SIZE
  omega

structure Valid (S off : Nat) : Prop where
  aligned : off % 4 = 0
  room : off + 8 ≤ S

def span (S off : Nat) (b : Blk) : Nat :=
  if b.dummy ∨ S - (off + b.size) < rbHEADER_SIZE then S - off else b.size

def next (S off : Nat) (b : Blk) : Nat := advance S off (span S off b)

section
variable {S off : Nat} {b : Blk}

theorem span_le (fits : off + b.size ≤ S) : b.size ≤ span S off b ∧ off + span S off b ≤ S := by
  unfold span
  split <;> omega

theorem span_pos (fits : off + b.size ≤ S) : 8 ≤ span S off b :=
  Nat.le_trans (size_bounds b).1 (span_le fits).1

theorem next_valid (whole : S % 4 = 0) (valid : Valid S off) (fits : off + b.size ≤ S) : Valid S (next S off b) := by
  obtain ⟨aligned, room⟩ := valid
  have size := size_bounds b
  unfold next span advance rbHEADER_SIZE
  constructor
  · split <;> split <;> omega
  · split <;> split <;> omega

theorem next_eq (valid : Valid S off) (fits : off + b.size ≤ S) (item : b.dummy = false) :
    next S off b = if S - (off + b.size) < rbHEADER_SIZE then 0 else off + b.size := by
  have room := valid.room
  unfold next span advance rbHEADER_SIZE
  rw [item]
  simp only [Bool.false_eq_true, false_or]
  split
  · rw [if_neg (by omega)]
    omega
  · rw [if_pos (by omega)]

theorem next_dummy (valid : Valid S off) (dummy : b.dummy = true) : next S off b = 0 := by
  have room := valid.room
  unfold next span advance
  rw [dummy]
  simp only [true_or, if_true]
  rw [if_neg (by omega)]
  omega

end

def spans (S : Nat) : Nat → List Blk → Nat
  | _, [] => 0
  | off, b :: bs => span S off b + spans S (next S off b) bs

theorem spans_cons (S off : Nat) (b : Blk) (bs : List Blk) :
    spans S off (b :: bs) = span S off b + spans S (next S off b) bs := rfl

def after (S : Nat) : Nat → List Blk → Nat
  | off, [] => off
  | off, b :: bs => after S (next S off b) bs

theorem after_nil (S off : Nat) : after S off [] = off := rfl

theorem after_cons (S off : Nat) (b : Blk) (bs : List Blk) : after S off (b :: bs) = after S (next S off b) bs := rfl

structure BlkAt (m : Lib.Memory) (a : Nat) (b : Blk) : Prop where
  len : xItemLen m a = b.data.length
  flags : uxItemFlags m a = b.flags
  data : load m (a + rbHEADER_SIZE) b.data.length = b.data

def Fits (S : Nat) : Nat → List Blk → Prop
  | _, [] => True
  | off, b :: bs => off + b.size ≤ S ∧ Fits S (next S off b) bs

def Chain (m : Lib.Memory) (head S : Nat) : Nat → List Blk → Prop
  | _, [] => True
  | off, b :: bs => BlkAt m (head + off) b ∧ Chain m head S (next S off b) bs

def Ends (S : Nat) : Nat → List Blk → Prop
  | _, [] => True
  | off, b :: bs => (b.split = true → 0 < off ∧ off + b.size = S) ∧ Ends S (next S off b) bs

section
variable {m m' : Lib.Memory} {head S off : Nat} {as bs : List Blk}

theorem ends_append : Ends S off (as ++ bs) ↔ Ends S off as ∧ Ends S (after S off as) bs := by
  induction as generalizing off with
  | nil => simp only [List.nil_append, Ends, after_nil, true_and]
  | cons b as ih => simp only [List.cons_append, Ends, after_cons, ih, and_assoc]

theorem ends_of_whole (whole : ∀ b ∈ bs, b.split = false) : Ends S off bs := by
  induction bs generalizing off with
  | nil => trivial
  | cons b bs ih =>
      refine ⟨?_, ih fun c member => whole c (List.mem_cons_of_mem b member)⟩
      intro split
      rw [whole b List.mem_cons_self] at split
      cases split

theorem spans_append (S off : Nat) (as bs : List Blk) :
    spans S off (as ++ bs) = spans S off as + spans S (after S off as) bs := by
  induction as generalizing off with
  | nil => simp only [List.nil_append, spans, after_nil, Nat.zero_add]
  | cons b as ih => simp only [List.cons_append, spans_cons, after_cons, ih, Nat.add_assoc]

theorem after_append (S off : Nat) (as bs : List Blk) : after S off (as ++ bs) = after S (after S off as) bs := by
  induction as generalizing off with
  | nil => rfl
  | cons b as ih => exact ih _

theorem fits_append : Fits S off (as ++ bs) ↔ Fits S off as ∧ Fits S (after S off as) bs := by
  induction as generalizing off with
  | nil => simp only [List.nil_append, Fits, after_nil, true_and]
  | cons b as ih => simp only [List.cons_append, Fits, after_cons, ih, and_assoc]

theorem chain_append : Chain m head S off (as ++ bs) ↔ Chain m head S off as ∧ Chain m head S (after S off as) bs := by
  induction as generalizing off with
  | nil => simp only [List.nil_append, Chain, after_nil, true_and]
  | cons b as ih => simp only [List.cons_append, Chain, after_cons, ih, and_assoc]

theorem after_valid (whole : S % 4 = 0) (valid : Valid S off) (fits : Fits S off bs) : Valid S (after S off bs) := by
  induction bs generalizing off with
  | nil => exact valid
  | cons b bs ih => exact ih (next_valid whole valid fits.1) fits.2

theorem after_eq (whole : S % 4 = 0) (valid : Valid S off) (fits : Fits S off bs) (room : spans S off bs ≤ S) :
    after S off bs = advance S off (spans S off bs) := by
  have bound := valid.room
  induction bs generalizing off with
  | nil => exact (advance_zero (show off < S by omega)).symm
  | cons b bs ih =>
      rw [spans_cons] at room
      have nextValid := next_valid whole valid fits.1
      have step := @advance_advance S off (span S off b) (spans S (next S off b) bs) (by omega) room
      rw [after_cons, ih nextValid fits.2 (by omega) nextValid.room, spans_cons, ← step]
      rfl

theorem length_le_spans (fits : Fits S off bs) : 8 * bs.length ≤ spans S off bs := by
  induction bs generalizing off with
  | nil => exact Nat.le_refl 0
  | cons b bs ih =>
      have here := span_pos fits.1
      have rest := ih fits.2
      rw [List.length_cons, spans_cons]
      omega

def InBlocks (head S : Nat) : Nat → List Blk → Nat → Prop
  | _, [], _ => False
  | off, b :: bs, x => (head + off ≤ x ∧ x < head + off + b.size) ∨ InBlocks head S (next S off b) bs x

theorem blkAt_congr {a : Nat} {b : Blk} (at_ : BlkAt m a b) (same : ∀ x, a ≤ x → x < a + b.size → m' x = m x) :
    BlkAt m' a b := by
  have size := size_bounds b
  refine ⟨?_, ?_, ?_⟩
  · rw [← at_.len]
    unfold xItemLen
    rw [load32_congr fun x low high => same x (by omega) (by omega)]
  · rw [← at_.flags]
    exact load32_congr fun x low high => same x (by omega) (by omega)
  · rw [load_congr fun x low high => same x (by omega) (by unfold rbHEADER_SIZE at high; omega)]
    exact at_.data

theorem chain_congr (chain : Chain m head S off bs) (same : ∀ x, InBlocks head S off bs x → m' x = m x) :
    Chain m' head S off bs := by
  induction bs generalizing off with
  | nil => trivial
  | cons b bs ih =>
      refine ⟨blkAt_congr chain.1 fun x low high => same x (.inl ⟨low, high⟩), ?_⟩
      exact ih chain.2 fun x inside => same x (.inr inside)

theorem inBlocks_append {x : Nat} :
    InBlocks head S off (as ++ bs) x ↔ InBlocks head S off as x ∨ InBlocks head S (after S off as) bs x := by
  induction as generalizing off with
  | nil => simp only [List.nil_append, InBlocks, after_nil, false_or]
  | cons b as ih => simp only [List.cons_append, InBlocks, after_cons, ih, or_assoc]

theorem inBlocks_advance (whole : S % 4 = 0) (valid : Valid S off) (fits : Fits S off bs) (room : spans S off bs ≤ S)
    {x : Nat} (inside : InBlocks head S off bs x) : ∃ d < spans S off bs, x = head + advance S off d := by
  have bound := valid.room
  induction bs generalizing off with
  | nil => exact inside.elim
  | cons b bs ih =>
      rw [spans_cons] at room ⊢
      have least := (span_le fits.1).1
      rcases inside with ⟨low, high⟩ | later
      · refine ⟨x - (head + off), by omega, ?_⟩
        have size := fits.1
        rw [advance_of_lt (by omega)]
        omega
      · have nextValid := next_valid whole valid fits.1
        obtain ⟨d, less, rfl⟩ := ih nextValid fits.2 (by omega) later nextValid.room
        refine ⟨span S off b + d, by omega, ?_⟩
        rw [← advance_advance (by omega) (by omega)]
        rfl

end

end EspFirmware.Proof.Rtos

/-!
The invariant of a buffer of items: from the free pointer on lie the blocks that were read and not all given
back, then those that wait, then free space. What sending an item adds to it.
-/

namespace EspFirmware.Proof.Rtos
open EspFirmware.Lib Lib.Memory EspFirmware.Rtos EspFirmware.Spec

structure Geometry (rb : Ringbuffer) : Prop where
  items : rb.type ≠ .byteBuf
  enough : 32 ≤ rb.xSize
  whole : rb.xSize % 4 = 0
  aligned : rb.pucHead % 4 = 0
  tail : rb.pucTail = rb.pucHead + rb.xSize
  below : rb.pucHead + rb.xSize ≤ 2 ^ 31
  maximum : (rb.type = .noSplit → rb.xMaxItemSize = rbALIGN_SIZE (rb.xSize / 2) - rbHEADER_SIZE) ∧
    (rb.type = .allowSplit → rb.xMaxItemSize = rb.xSize - rbHEADER_SIZE * 2)

structure SameRing (rb rb' : Ringbuffer) : Prop where
  type : rb'.type = rb.type
  size : rb'.xSize = rb.xSize
  max : rb'.xMaxItemSize = rb.xMaxItemSize
  head : rb'.pucHead = rb.pucHead
  tail : rb'.pucTail = rb.pucTail

theorem SameRing.trans {rb rb' rb'' : Ringbuffer} (first : SameRing rb rb') (second : SameRing rb' rb'') :
    SameRing rb rb'' :=
  ⟨second.type.trans first.type, second.size.trans first.size, second.max.trans first.max,
    second.head.trans first.head, second.tail.trans first.tail⟩

theorem SameRing.geometry {rb rb' : Ringbuffer} (same : SameRing rb rb') (geo : Geometry rb) : Geometry rb' where
  items := by rw [same.type]; exact geo.items
  enough := by rw [same.size]; exact geo.enough
  whole := by rw [same.size]; exact geo.whole
  aligned := by rw [same.head]; exact geo.aligned
  tail := by rw [same.tail, same.head, same.size]; exact geo.tail
  below := by rw [same.head, same.size]; exact geo.below
  maximum := by rw [same.type, same.max, same.size]; exact geo.maximum

def isItem (b : Blk) : Bool := !b.dummy

structure Placed (rb : Ringbuffer) (F : Nat) (bs : List Blk) : Prop where
  geo : Geometry rb
  valid : Valid rb.xSize F
  fits : Fits rb.xSize F bs
  chain : Chain rb.memory rb.pucHead rb.xSize F bs
  room : spans rb.xSize F bs ≤ rb.xSize
  free : rb.pucFree = rb.pucHead + F
  write : rb.pucWrite = rb.pucHead + after rb.xSize F bs

structure RingInv (rb : Ringbuffer) (F : Nat) (taken waiting : List Blk) : Prop where
  placed : Placed rb F (taken ++ waiting)
  read : rb.pucRead = rb.pucHead + after rb.xSize F taken
  full : rb.full = decide (spans rb.xSize F (taken ++ waiting) = rb.xSize)
  count : rb.xItemsWaiting = (waiting.filter isItem).length
  lengths : ∀ b ∈ taken ++ waiting, b.data.length ≤ rb.xMaxItemSize
  unread : ∀ b ∈ waiting, b.freed = false
  ends : Ends rb.xSize (after rb.xSize F taken) waiting

section
variable {rb : Ringbuffer} {F : Nat} {taken waiting bs : List Blk}

theorem max_lt (geo : Geometry rb) : rb.xMaxItemSize + 8 ≤ rb.xSize ∧ rb.xMaxItemSize + 8 < 2 ^ 31 := by
  have enough := geo.enough
  have below := geo.below
  have align := align_bounds (rb.xSize / 2)
  cases type : rb.type with
  | noSplit =>
      rw [geo.maximum.1 type]
      unfold rbHEADER_SIZE
      omega
  | allowSplit =>
      rw [geo.maximum.2 type]
      unfold rbHEADER_SIZE
      omega
  | byteBuf => exact absurd type geo.items

theorem Placed.after_eq (placed : Placed rb F bs) :
    after rb.xSize F bs = advance rb.xSize F (spans rb.xSize F bs) :=
  Rtos.after_eq placed.geo.whole placed.valid placed.fits placed.room

theorem Placed.writeValid (placed : Placed rb F bs) : Valid rb.xSize (after rb.xSize F bs) :=
  after_valid placed.geo.whole placed.valid placed.fits

theorem RingInv.takenRoom (inv : RingInv rb F taken waiting) :
    spans rb.xSize F taken + spans rb.xSize (after rb.xSize F taken) waiting ≤ rb.xSize := by
  have room := inv.placed.room
  rw [spans_append] at room
  exact room

theorem RingInv.takenFits (inv : RingInv rb F taken waiting) : Fits rb.xSize F taken :=
  (fits_append.mp inv.placed.fits).1

theorem RingInv.read_eq (inv : RingInv rb F taken waiting) :
    after rb.xSize F taken = advance rb.xSize F (spans rb.xSize F taken) := by
  have room := inv.takenRoom
  exact Rtos.after_eq inv.placed.geo.whole inv.placed.valid inv.takenFits (by omega)

theorem RingInv.readValid (inv : RingInv rb F taken waiting) : Valid rb.xSize (after rb.xSize F taken) :=
  after_valid inv.placed.geo.whole inv.placed.valid inv.takenFits

theorem header_setItemLen (m : Lib.Memory) {a len : Nat} (small : len < 2 ^ 32) : xItemLen (setItemLen m a len) a = len := by
  unfold xItemLen setItemLen
  rw [load32_store32, BitVec.toNat_ofNat, Nat.mod_eq_of_lt small]

theorem header_setItemFlags (m : Lib.Memory) (a : Nat) (flags : BitVec 32) :
    uxItemFlags (setItemFlags m a flags) a = flags := by
  unfold uxItemFlags setItemFlags
  exact load32_store32 m (a + 4) flags

theorem header_other (m : Lib.Memory) {a x : Nat} (outside : x < a ∨ a + 8 ≤ x) (len : Nat) (flags : BitVec 32) :
    setItemLen m a len x = m x ∧ setItemFlags m a flags x = m x :=
  ⟨store32_other _ _ (by omega), store32_other _ _ (by omega)⟩

theorem xItemLen_setItemFlags (m : Lib.Memory) (a : Nat) (flags : BitVec 32) :
    xItemLen (setItemFlags m a flags) a = xItemLen m a := by
  unfold xItemLen setItemFlags
  rw [load32_store32_of_apart _ _ (by omega)]

theorem uxItemFlags_setItemLen (m : Lib.Memory) (a len : Nat) : uxItemFlags (setItemLen m a len) a = uxItemFlags m a := by
  unfold uxItemFlags setItemLen
  rw [load32_store32_of_apart _ _ (by omega)]

theorem header_store (m : Lib.Memory) (a : Nat) (data : List (BitVec 8)) :
    xItemLen (store m (a + rbHEADER_SIZE) data) a = xItemLen m a ∧
      uxItemFlags (store m (a + rbHEADER_SIZE) data) a = uxItemFlags m a := by
  unfold rbHEADER_SIZE
  have before {x : Nat} (less : x < a + 8) : store m (a + 8) data x = m x := store_other _ (.inl less)
  constructor
  · unfold xItemLen
    rw [load32_congr fun x low high => before (by omega)]
  · exact load32_congr fun x low high => before (by omega)

theorem load_setItemFlags (m : Lib.Memory) (a : Nat) (flags : BitVec 32) (count : Nat) :
    load (setItemFlags m a flags) (a + rbHEADER_SIZE) count = load m (a + rbHEADER_SIZE) count := by
  apply load_congr
  intro x low high
  exact (header_other m (.inr low) 0 flags).2

theorem Placed.apart (placed : Placed rb F bs) {size x : Nat} (fits : after rb.xSize F bs + size ≤ rb.xSize)
    (room : spans rb.xSize F bs + size ≤ rb.xSize) (inside : InBlocks rb.pucHead rb.xSize F bs x) :
    x < rb.pucWrite ∨ rb.pucWrite + size ≤ x := by
  have valid := placed.valid.room
  have place := placed.after_eq
  obtain ⟨d, less, rfl⟩ := inBlocks_advance placed.geo.whole placed.valid placed.fits placed.room inside
  by_contra between
  rw [placed.write] at between
  obtain ⟨i, same⟩ : ∃ i, advance rb.xSize F d = after rb.xSize F bs + i :=
    ⟨advance rb.xSize F d - after rb.xSize F bs, by omega⟩
  have ahead : after rb.xSize F bs + i = advance rb.xSize F (spans rb.xSize F bs + i) := by
    rw [← advance_advance (by omega) (by omega), ← place, advance_of_lt (by omega)]
  have := advance_inj (by omega) (by omega) (same.trans ahead)
  omega

theorem Placed.push (placed : Placed rb F bs) {b : Blk} {rb' : Ringbuffer} (same : SameRing rb rb')
    (fits : after rb.xSize F bs + b.size ≤ rb.xSize)
    (room : spans rb.xSize F bs + span rb.xSize (after rb.xSize F bs) b ≤ rb.xSize)
    (at_ : BlkAt rb'.memory rb.pucWrite b)
    (other : ∀ x, x < rb.pucWrite ∨ rb.pucWrite + b.size ≤ x → rb'.memory x = rb.memory x)
    (free : rb'.pucFree = rb.pucFree)
    (write : rb'.pucWrite = rb.pucHead + next rb.xSize (after rb.xSize F bs) b) :
    Placed rb' F (bs ++ [b]) ∧ ∀ x, InBlocks rb.pucHead rb.xSize F bs x → rb'.memory x = rb.memory x := by
  have least := (span_le fits).1
  have frame : ∀ x, InBlocks rb.pucHead rb.xSize F bs x → rb'.memory x = rb.memory x := by
    intro x inside
    exact other x (placed.apart fits (by omega) inside)
  refine ⟨⟨same.geometry placed.geo, ?_, ?_, ?_, ?_, ?_, ?_⟩, frame⟩
  · rw [same.size]
    exact placed.valid
  · rw [same.size, fits_append]
    exact ⟨placed.fits, fits, trivial⟩
  · rw [same.size, same.head, chain_append]
    refine ⟨chain_congr placed.chain frame, ?_, trivial⟩
    rw [← placed.write]
    exact at_
  · rw [same.size, spans_append]
    exact room
  · rw [free, same.head]
    exact placed.free
  · rw [write, same.size, same.head, after_append]
    rfl

end

end EspFirmware.Proof.Rtos
