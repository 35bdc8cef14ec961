import EspFirmware.Proof.Rtos.Receive

/-!
Giving a part back marks its block, and moves the free pointer over the blocks that nobody holds.
-/

namespace EspFirmware.Proof.Rtos
open EspFirmware.Lib Lib.Memory EspFirmware.Rtos EspFirmware.Spec

section
variable {m : Lib.Memory} {head S off : Nat} {as bs : List Blk}

theorem inBlocks_apart (whole : S % 4 = 0) (valid : Valid S off) (fits : Fits S off (as ++ bs))
    (room : spans S off (as ++ bs) ≤ S) {x : Nat} (early : InBlocks head S off as x)
    (late : InBlocks head S (after S off as) bs x) : False := by
  obtain ⟨fitsEarly, fitsLate⟩ := fits_append.mp fits
  rw [spans_append] at room
  have inside := valid.room
  have lateValid := after_valid whole valid fitsEarly
  obtain ⟨d, less, rfl⟩ := inBlocks_advance whole valid fitsEarly (by omega) early
  obtain ⟨e, less', same⟩ := inBlocks_advance whole lateValid fitsLate (by omega) late
  rw [after_eq whole valid fitsEarly (by omega), advance_advance (by omega) (by omega)] at same
  have := advance_inj (by omega) (by omega) (Nat.add_left_cancel same)
  omega

theorem inBlocks_header (b : Blk) {i : Nat} (small : i < 8) : InBlocks head S off (b :: bs) (head + off + i) := by
  have size := size_bounds b
  exact .inl ⟨by omega, by omega⟩

theorem parts_inBlocks {p : Part} (held : p ∈ parts head S off bs) {x : Nat} (low : p.ptr - rbHEADER_SIZE ≤ x)
    (high : x < p.ptr + p.size) : InBlocks head S off bs x := by
  induction bs generalizing off with
  | nil => cases held
  | cons b bs ih =>
      rw [parts] at held
      split at held
      · exact .inr (ih held)
      · rcases List.mem_cons.mp held with rfl | later
        · have size := size_bounds b
          unfold partAt rbHEADER_SIZE at low high
          dsimp only at low high
          exact .inl ⟨by omega, by omega⟩
        · exact .inr (ih later)

theorem parts_ptr {p : Part} (held : p ∈ parts head S off bs) : rbHEADER_SIZE ≤ p.ptr := by
  induction bs generalizing off with
  | nil => cases held
  | cons b bs ih =>
      rw [parts] at held
      split at held
      · exact ih held
      · rcases List.mem_cons.mp held with rfl | later
        · exact Nat.le_add_left _ _
        · exact ih later

theorem parts_block {p : Part} (held : p ∈ parts head S off bs) :
    ∃ before b later, bs = before ++ b :: later ∧ b.dummy = false ∧ b.freed = false ∧
      p = partAt (head + after S off before) b := by
  induction bs generalizing off with
  | nil => cases held
  | cons b bs ih =>
      rw [parts] at held
      split at held
      · obtain ⟨before, c, later, rfl, rest⟩ := ih held
        exact ⟨b :: before, c, later, rfl, rest⟩
      · rename_i out
        rcases List.mem_cons.mp held with rfl | there
        · exact ⟨[], b, bs, rfl, by simpa using fun d => out (.inl d), by simpa using fun f => out (.inr f), rfl⟩
        · obtain ⟨before, c, later, rfl, rest⟩ := ih there
          exact ⟨b :: before, c, later, rfl, rest⟩

theorem parts_dropped (gone : ∀ b ∈ as, b.dummy = true ∨ b.freed = true) :
    parts head S off (as ++ bs) = parts head S (after S off as) bs := by
  induction as generalizing off with
  | nil => rfl
  | cons b as ih =>
      rw [List.cons_append, parts, if_pos (gone b List.mem_cons_self)]
      exact ih fun c member => gone c (List.mem_cons_of_mem b member)

section
variable {b : Blk}

theorem after_returned (S off : Nat) (as bs : List Blk) (b : Blk) :
    after S off (as ++ b.returned :: bs) = after S off (as ++ b :: bs) := by
  rw [after_append, after_append]
  rfl

theorem spans_returned (S off : Nat) (as bs : List Blk) (b : Blk) :
    spans S off (as ++ b.returned :: bs) = spans S off (as ++ b :: bs) := by
  rw [spans_append, spans_append]
  rfl

theorem fits_returned (fits : Fits S off (as ++ b :: bs)) : Fits S off (as ++ b.returned :: bs) := by
  rw [fits_append] at fits ⊢
  exact fits

theorem header_apart (whole : S % 4 = 0) (valid : Valid S off) (fits : Fits S off (as ++ b :: bs))
    (room : spans S off (as ++ b :: bs) ≤ S) {x : Nat}
    (other : InBlocks head S off as x ∨ InBlocks head S (next S (after S off as) b) bs x) :
    x < head + after S off as ∨ head + after S off as + 8 ≤ x := by
  by_contra within
  obtain ⟨i, less, rfl⟩ : ∃ i < 8, x = head + after S off as + i :=
    ⟨x - (head + after S off as), by omega, by omega⟩
  rcases other with before | later
  · exact inBlocks_apart whole valid fits room before (inBlocks_header b less)
  · rw [List.append_cons] at fits room
    rw [show next S (after S off as) b = after S off (as ++ [b]) from (after_append S off as [b]).symm] at later
    exact inBlocks_apart whole valid fits room (inBlocks_append.mpr (.inr (inBlocks_header b less))) later

theorem mark_chain (whole : S % 4 = 0) (valid : Valid S off) (fits : Fits S off (as ++ b :: bs))
    (room : spans S off (as ++ b :: bs) ≤ S) (chain : Chain m head S off (as ++ b :: bs)) :
    Chain (setItemFlags m (head + after S off as) b.returned.flags) head S off (as ++ b.returned :: bs) := by
  obtain ⟨chainBefore, atBlock, chainLater⟩ := chain_append.mp chain
  rw [chain_append]
  refine ⟨?_, ⟨?_, ?_, ?_⟩, ?_⟩
  · apply chain_congr chainBefore
    intro x inside
    exact (header_other m (header_apart whole valid fits room (.inl inside)) 0 _).2
  · exact (xItemLen_setItemFlags m _ _).trans atBlock.len
  · exact header_setItemFlags m _ _
  · exact (load_setItemFlags m _ _ _).trans atBlock.data
  · apply chain_congr chainLater
    intro x inside
    exact (header_other m (header_apart whole valid fits room (.inr inside)) 0 _).2

theorem parts_returned (whole : S % 4 = 0) (valid : Valid S off) (fits : Fits S off (as ++ b :: bs))
    (room : spans S off (as ++ b :: bs) ≤ S) (item : b.dummy = false) (held : b.freed = false) :
    parts head S off (as ++ b.returned :: bs) =
      (parts head S off (as ++ b :: bs)).filter
        fun p => p.ptr ≠ head + after S off as + rbHEADER_SIZE := by
  have kept {off' : Nat} {cs : List Blk} (other : ∀ x, InBlocks head S off' cs x →
      x < head + after S off as ∨ head + after S off as + 8 ≤ x) :
      (parts head S off' cs).filter (fun p => p.ptr ≠ head + after S off as + rbHEADER_SIZE) =
        parts head S off' cs := by
    rw [List.filter_eq_self]
    intro p member
    apply decide_eq_true
    intro same
    have least := parts_ptr member
    unfold rbHEADER_SIZE at least same
    have := other (p.ptr - rbHEADER_SIZE) (parts_inBlocks member (Nat.le_refl _) (by unfold rbHEADER_SIZE; omega))
    unfold rbHEADER_SIZE at this
    omega
  rw [parts_append, parts_append, List.filter_append,
    kept fun x inside => header_apart whole valid fits room (.inl inside), parts, parts,
    if_pos (.inr (show b.returned.freed = true from rfl)), if_neg (by rw [item, held]; decide), List.filter_cons_of_neg,
    kept fun x inside => header_apart whole valid fits room (.inr inside)]
  · rfl
  · exact fun differ => absurd rfl (of_decide_eq_true differ)

end

end

structure Dropped (taken dropped rest : List Blk) : Prop where
  split : taken = dropped ++ rest
  gone : ∀ b ∈ dropped, b.dummy = true ∨ b.freed = true
  stop : ∀ b ∈ rest.head?, b.dummy = false ∧ b.freed = false

theorem Dropped.cons {taken dropped rest : List Blk} {b : Blk} (more : Dropped taken dropped rest)
    (gone : b.dummy = true ∨ b.freed = true) : Dropped (b :: taken) (b :: dropped) rest where
  split := by rw [more.split, List.cons_append]
  gone c member := by
    rcases List.mem_cons.mp member with rfl | later
    · exact gone
    · exact more.gone c later
  stop := more.stop

section
variable {rb : Ringbuffer} {F : Nat} {taken waiting : List Blk}

theorem moveFree_spec (geo : Geometry rb) {fuel : Nat} (enough : taken.length < fuel) (valid : Valid rb.xSize F)
    (fits : Fits rb.xSize F (taken ++ waiting)) (chain : Chain rb.memory rb.pucHead rb.xSize F (taken ++ waiting))
    (room : spans rb.xSize F (taken ++ waiting) ≤ rb.xSize) (less : spans rb.xSize F taken < rb.xSize)
    (free : rb.pucFree = rb.pucHead + F) (read : rb.pucRead = rb.pucHead + after rb.xSize F taken) :
    ∃ dropped rest m', Dropped taken dropped rest ∧
      Ringbuffer.moveFree fuel rb =
        some { rb with memory := m', pucFree := rb.pucHead + after rb.xSize F dropped } ∧
      ∀ x, InBlocks rb.pucHead rb.xSize (after rb.xSize F dropped) (rest ++ waiting) x → m' x = rb.memory x := by
  induction taken generalizing rb F fuel with
  | nil =>
      obtain ⟨fuel, rfl⟩ : ∃ k, fuel = k + 1 := ⟨fuel - 1, by simp at enough; omega⟩
      refine ⟨[], [], rb.memory, ⟨rfl, nofun, nofun⟩, ?_, fun x _ => rfl⟩
      rw [Ringbuffer.moveFree, if_neg (fun both => both.2 (free.trans read.symm))]
      show some rb = some { rb with pucFree := rb.pucHead + F }
      rw [← free]
  | cons b bs ih =>
      obtain ⟨fuel, rfl⟩ : ∃ k, fuel = k + 1 := ⟨fuel - 1, by simp at enough; omega⟩
      rw [List.length_cons] at enough
      have inside := valid.room
      have fitsTaken := (fits_append.mp fits).1
      have here := span_pos fits.1
      have ahead : rb.pucFree ≠ rb.pucRead := by
        rw [free, read, after_eq geo.whole valid fitsTaken (by omega)]
        intro same
        rw [spans_cons] at less same
        have := (advance_eq_self (by omega) (by omega)).mp (Nat.add_left_cancel same).symm
        omega
      have nextValid := next_valid geo.whole valid fits.1
      have flags := chain.1.flags
      have apart : ∀ x, InBlocks rb.pucHead rb.xSize (next rb.xSize F b) (bs ++ waiting) x →
          x < rb.pucHead + F ∨ rb.pucHead + F + 8 ≤ x := fun x later =>
        @header_apart rb.pucHead rb.xSize F [] (bs ++ waiting) b geo.whole valid fits room x (.inr later)
      have roomNext : spans rb.xSize (next rb.xSize F b) (bs ++ waiting) ≤ rb.xSize := by
        rw [List.cons_append, spans_cons] at room
        omega
      have lessNext : spans rb.xSize (next rb.xSize F b) bs < rb.xSize := by
        rw [spans_cons] at less
        omega
      rw [Ringbuffer.moveFree, free, flags, flags_free, flags_dummy]
      dsimp only
      by_cases dummy : b.dummy = true
      · rw [if_pos ⟨.inr dummy, by rw [← free]; exact ahead⟩, if_pos dummy]
        have zero := next_dummy valid dummy
        obtain ⟨dropped, rest, m', drop, moved, frame⟩ := @ih { rb with
          memory := setItemFlags rb.memory (rb.pucHead + F) (b.flags ||| rbITEM_FREE_FLAG)
          pucFree := rb.pucHead } (next rb.xSize F b)
          ⟨geo.items, geo.enough, geo.whole, geo.aligned, geo.tail, geo.below, geo.maximum⟩ fuel (by omega) nextValid
          fits.2 (chain_congr chain.2 fun x later => (header_other rb.memory (apart x later) 0 _).2) roomNext lessNext
          (by rw [zero]; rfl) read
        refine ⟨b :: dropped, rest, m', drop.cons (.inl dummy), moved, ?_⟩
        intro x later
        refine (frame x later).trans (header_other rb.memory (apart x ?_) 0 _).2
        have below : InBlocks rb.pucHead rb.xSize (next rb.xSize F b) (dropped ++ (rest ++ waiting)) x :=
          inBlocks_append.mpr (.inr later)
        rw [← List.append_assoc, ← drop.split] at below
        exact below
      · have item : b.dummy = false := by simpa using dummy
        by_cases freed : b.freed = true
        · rw [if_pos ⟨.inl freed, by rw [← free]; exact ahead⟩, if_neg dummy, chain.1.len]
          have size : b.size = rbHEADER_SIZE + rbALIGN_SIZE b.data.length := rfl
          have fitsHere := fits.1
          have tail := geo.tail
          unfold configASSERT
          rw [if_pos (by omega)]
          have moved : (if rb.pucTail - (rb.pucHead + F + (rbALIGN_SIZE b.data.length + rbHEADER_SIZE)) < rbHEADER_SIZE
              then rb.pucHead else rb.pucHead + F + (rbALIGN_SIZE b.data.length + rbHEADER_SIZE)) =
              rb.pucHead + next rb.xSize F b := by
            have same := (getFrom geo valid fits.1 item).1
            rw [Nat.add_comm rbHEADER_SIZE] at same
            exact same
          rw [moved]
          obtain ⟨dropped, rest, m', drop, moved, frame⟩ := @ih
            { rb with pucFree := rb.pucHead + next rb.xSize F b } (next rb.xSize F b)
            ⟨geo.items, geo.enough, geo.whole, geo.aligned, geo.tail, geo.below, geo.maximum⟩ fuel (by omega) nextValid
            fits.2 chain.2 roomNext lessNext rfl read
          exact ⟨b :: dropped, rest, m', drop.cons (.inr freed), moved, frame⟩
        · rw [if_neg (fun both => both.1.elim freed dummy)]
          refine ⟨[], b :: bs, rb.memory, ⟨rfl, nofun, ?_⟩, ?_, fun x _ => rfl⟩
          · intro c first
            cases first
            exact ⟨item, by simpa using freed⟩
          · show some rb = some { rb with pucFree := rb.pucHead + F }
            rw [← free]

end

def clearFull (rb : Ringbuffer) : Ringbuffer :=
  if rb.full ∧ (rb.pucFree ≠ rb.pucWrite ∨ rb.pucFree = rb.pucRead) then { rb with full := false } else rb

def marked (rb : Ringbuffer) (off : Nat) (b : Blk) : Ringbuffer :=
  { rb with memory := setItemFlags rb.memory (rb.pucHead + off) b.returned.flags }

section
variable {rb : Ringbuffer} {F off : Nat} {taken waiting : List Blk} {b : Blk}

theorem returnItem_eq (geo : Geometry rb) (valid : Valid rb.xSize off)
    (at_ : BlkAt rb.memory (rb.pucHead + off) b) (item : b.dummy = false) (held : b.freed = false)
    (short : b.data.length ≤ rb.xMaxItemSize) :
    rb.vReturnItem (rb.pucHead + off + rbHEADER_SIZE) =
      (Ringbuffer.moveFree (rb.xSize + 1) (marked rb off b)).map clearFull := by
  have default : rb.vReturnItem (rb.pucHead + off + rbHEADER_SIZE) =
      rb.prvReturnItemDefault (rb.pucHead + off + rbHEADER_SIZE) := by
    unfold Ringbuffer.vReturnItem
    cases type : rb.type with
    | noSplit => rfl
    | allowSplit => rfl
    | byteBuf => exact absurd type geo.items
  have head := geo.aligned
  have tail := geo.tail
  have room := valid.room
  have aligned := valid.aligned
  have place : rb.pucHead + off + rbHEADER_SIZE - rbHEADER_SIZE = rb.pucHead + off := Nat.add_sub_cancel _ _
  rw [default]
  unfold Ringbuffer.prvReturnItemDefault configASSERT
  dsimp only
  rw [place, at_.len, at_.flags, flags_dummy, flags_free, item, held,
    if_pos (by unfold rbAligned rbHEADER_SIZE; omega), if_pos (by omega),
    if_pos (by unfold rbHEADER_SIZE; omega), if_pos short, if_pos Bool.false_ne_true, if_pos Bool.false_ne_true,
    flags_returned]
  rfl

theorem return_still (geo : Geometry rb) (valid : Valid rb.xSize off)
    (at_ : BlkAt rb.memory (rb.pucHead + off) b) (item : b.dummy = false) (held : b.freed = false)
    (short : b.data.length ≤ rb.xMaxItemSize) (still : rb.pucFree = rb.pucRead) :
    rb.vReturnItem (rb.pucHead + off + rbHEADER_SIZE) = some { marked rb off b with full := false } := by
  rw [returnItem_eq geo valid at_ item held short, Ringbuffer.moveFree, if_neg (fun both => both.2 still),
    Option.map_some]
  congr 1
  unfold clearFull
  cases full : (marked rb off b).full with
  | true => rw [if_pos ⟨rfl, .inr still⟩]
  | false =>
      rw [if_neg (fun both => Bool.false_ne_true both.1), ← full]

theorem RingInv.block (inv : RingInv rb F taken waiting) {before later : List Blk}
    (split : taken = before ++ b :: later) :
    Valid rb.xSize (after rb.xSize F before) ∧ BlkAt rb.memory (rb.pucHead + after rb.xSize F before) b ∧
      b.data.length ≤ rb.xMaxItemSize := by
  have fits := inv.placed.fits
  have chain := inv.placed.chain
  rw [split, List.append_assoc] at fits chain
  refine ⟨after_valid inv.placed.geo.whole inv.placed.valid (fits_append.mp fits).1, (chain_append.mp chain).2.1, ?_⟩
  apply inv.lengths
  rw [split]
  exact List.mem_append_left _ (List.mem_append_right _ List.mem_cons_self)

theorem ringInv_empty (geo : Geometry rb) (valid : Valid rb.xSize F) (free : rb.pucFree = rb.pucHead + F)
    (read : rb.pucRead = rb.pucHead + F) (write : rb.pucWrite = rb.pucHead + F) (full : rb.full = false)
    (count : rb.xItemsWaiting = 0) : RingInv rb F [] [] where
  placed := ⟨geo, valid, trivial, trivial, Nat.zero_le _, free, write⟩
  read := read
  full := by
    have enough := geo.enough
    rw [full]
    refine (decide_eq_false ?_).symm
    show ¬ 0 = rb.xSize
    omega
  count := count
  lengths := nofun
  unread := nofun
  ends := trivial

theorem create_geometry (s : Storage) {type : RingbufType} (items : type ≠ .byteBuf) : Geometry (s.create type) := by
  have size : (s.create type).xSize = rbALIGN_SIZE s.size := if_neg items
  have align := align_bounds s.size
  have enough := s.enough
  have below := s.below
  have aligned := s.aligned
  refine ⟨items, ?_, ?_, aligned, rfl, ?_, ?_, ?_⟩
  · omega
  · omega
  · show s.head + (s.create type).xSize ≤ 2 ^ 31
    omega
  · intro noSplit
    have type_ : type = .noSplit := noSplit
    subst type_
    rfl
  · intro allowSplit
    have type_ : type = .allowSplit := allowSplit
    subst type_
    rfl

theorem create_inv (s : Storage) {type : RingbufType} (items : type ≠ .byteBuf) : RingInv (s.create type) 0 [] [] := by
  have geo := create_geometry s items
  have enough := geo.enough
  exact ringInv_empty geo ⟨rfl, by omega⟩ rfl rfl rfl rfl rfl

theorem clearFull_eq (geo : Geometry rb) (valid : Valid rb.xSize F) (fits : Fits rb.xSize F (taken ++ waiting))
    (room : spans rb.xSize F (taken ++ waiting) ≤ rb.xSize) (less : spans rb.xSize F taken < rb.xSize)
    (free : rb.pucFree = rb.pucHead + F) (read : rb.pucRead = rb.pucHead + after rb.xSize F taken)
    (write : rb.pucWrite = rb.pucHead + after rb.xSize F (taken ++ waiting))
    (still : spans rb.xSize F (taken ++ waiting) = rb.xSize → rb.full = true ∧ taken ≠ []) :
    clearFull rb = { rb with full := decide (spans rb.xSize F (taken ++ waiting) = rb.xSize) } := by
  have inside := valid.room
  have fitsTaken := (fits_append.mp fits).1
  have readBack := @advance_eq_self rb.xSize F (spans rb.xSize F taken) (by omega) (by omega)
  rw [← after_eq geo.whole valid fitsTaken (by omega)] at readBack
  have writeBack := @advance_eq_self rb.xSize F (spans rb.xSize F (taken ++ waiting)) (by omega) room
  rw [← after_eq geo.whole valid fits room] at writeBack
  unfold clearFull
  by_cases whole : spans rb.xSize F (taken ++ waiting) = rb.xSize
  · obtain ⟨full, some_⟩ := still whole
    have more := length_le_spans fitsTaken
    have nonempty := List.length_pos_iff.mpr some_
    rw [decide_eq_true whole, if_neg (by omega), ← full]
  · rw [decide_eq_false whole]
    cases full : rb.full with
    | false => rw [if_neg (fun both => Bool.false_ne_true both.1), ← full]
    | true =>
        rw [if_pos]
        refine ⟨rfl, ?_⟩
        have parted := spans_append rb.xSize F taken waiting
        omega

structure GivenBack (rb rb' : Ringbuffer) (F F' : Nat) (taken taken' waiting : List Blk) (p : Part) : Prop where
  same : SameRing rb rb'
  inv : RingInv rb' F' taken' waiting
  parts : parts rb.pucHead rb.xSize F' taken' = (parts rb.pucHead rb.xSize F taken).filter fun q => q.ptr ≠ p.ptr
  less : spans rb.xSize F' taken' ≤ spans rb.xSize F taken
  stop : ∀ b ∈ taken'.head?, b.dummy = false ∧ b.freed = false
  frame : ∀ q ∈ Rtos.parts rb.pucHead rb.xSize F' taken', ∀ x, q.ptr - rbHEADER_SIZE ≤ x → x < q.ptr + q.size →
    rb'.memory x = rb.memory x

theorem return_spec (inv : RingInv rb F taken waiting) (less : spans rb.xSize F taken < rb.xSize) {p : Part}
    (held : p ∈ parts rb.pucHead rb.xSize F taken) :
    ∃ rb' F' taken', rb.vReturnItem p.ptr = some rb' ∧ GivenBack rb rb' F F' taken taken' waiting p := by
  have geo := inv.placed.geo
  have validF := inv.placed.valid
  obtain ⟨before, b, later, split, item, out, rfl⟩ := parts_block held
  obtain ⟨valid, at_, short⟩ := inv.block split
  have fits := inv.placed.fits
  have chain := inv.placed.chain
  have room := inv.placed.room
  have full := inv.full
  have lengths := inv.lengths
  rw [split, List.append_assoc, List.cons_append] at fits chain room
  have fits' := fits_returned fits
  have room' : spans rb.xSize F (before ++ b.returned :: (later ++ waiting)) ≤ rb.xSize := by
    rw [spans_returned]
    exact room
  have chain' := mark_chain geo.whole validF fits room chain
  have short' := length_le_spans inv.takenFits
  have readAt : rb.pucRead = rb.pucHead + after rb.xSize F (before ++ b.returned :: later) := by
    rw [after_returned, ← split]
    exact inv.read
  have lessMarked : spans rb.xSize F (before ++ b.returned :: later) < rb.xSize := by
    rw [spans_returned, ← split]
    exact less
  obtain ⟨dropped, rest, m', drop, moved, frame⟩ := @moveFree_spec (marked rb (after rb.xSize F before) b) F
    (before ++ b.returned :: later) waiting
    ⟨geo.items, geo.enough, geo.whole, geo.aligned, geo.tail, geo.below, geo.maximum⟩ (rb.xSize + 1)
    (by
      rw [split] at short'
      simp only [List.length_append, List.length_cons] at short' ⊢
      rw [split] at less
      omega)
    validF (by rw [List.append_assoc]; exact fits') (by rw [List.append_assoc]; exact chain')
    (by rw [List.append_assoc]; exact room') lessMarked inv.placed.free readAt
  have total : dropped ++ (rest ++ waiting) = before ++ b.returned :: (later ++ waiting) := by
    rw [← List.append_assoc, ← drop.split, List.append_assoc]
    rfl
  have fitsTotal : Fits rb.xSize F (dropped ++ (rest ++ waiting)) := by
    rw [total]
    exact fits'
  have spansTotal : spans rb.xSize F dropped + spans rb.xSize (after rb.xSize F dropped) (rest ++ waiting) =
      spans rb.xSize F (taken ++ waiting) := by
    rw [← spans_append, total, spans_returned, split, List.append_assoc]
    rfl
  have spansTaken : spans rb.xSize F dropped + spans rb.xSize (after rb.xSize F dropped) rest =
      spans rb.xSize F taken := by
    rw [← spans_append, ← drop.split, spans_returned, split]
  have validDrop := after_valid geo.whole validF (fits_append.mp fitsTotal).1
  have afterTotal : after rb.xSize (after rb.xSize F dropped) (rest ++ waiting) = after rb.xSize F (taken ++ waiting) := by
    rw [← after_append, total, after_returned, split, List.append_assoc]
    rfl
  have afterTaken : after rb.xSize (after rb.xSize F dropped) rest = after rb.xSize F taken := by
    rw [← after_append, ← drop.split, after_returned, split]
  have roomTotal := inv.placed.room
  have cleared := @clearFull_eq
    { marked rb (after rb.xSize F before) b with memory := m', pucFree := rb.pucHead + after rb.xSize F dropped }
    (after rb.xSize F dropped) rest waiting
    ⟨geo.items, geo.enough, geo.whole, geo.aligned, geo.tail, geo.below, geo.maximum⟩ validDrop
    (fits_append.mp fitsTotal).2
    (show spans rb.xSize _ _ ≤ rb.xSize by omega) (show spans rb.xSize _ _ < rb.xSize by omega) rfl
    (show rb.pucRead = rb.pucHead + after rb.xSize (after rb.xSize F dropped) rest by
      rw [afterTaken]
      exact inv.read)
    (show rb.pucWrite = rb.pucHead + after rb.xSize (after rb.xSize F dropped) (rest ++ waiting) by
      rw [afterTotal]
      exact inv.placed.write)
    (by
      intro whole
      have same : spans rb.xSize (after rb.xSize F dropped) (rest ++ waiting) = rb.xSize := whole
      have more := length_le_spans (fits_append.mp fitsTotal).1
      have none_ : dropped = [] := List.length_eq_zero_iff.mp (by omega)
      refine ⟨full.trans (decide_eq_true (by omega)), ?_⟩
      have all := drop.split
      rw [none_, List.nil_append] at all
      rw [← all]
      exact List.append_ne_nil_of_right_ne_nil _ (List.cons_ne_nil _ _))
  refine ⟨{ rb with
    memory := m'
    pucFree := rb.pucHead + after rb.xSize F dropped
    full := decide (spans rb.xSize (after rb.xSize F dropped) (rest ++ waiting) = rb.xSize) },
    after rb.xSize F dropped, rest, ?_, ?_⟩
  · show rb.vReturnItem (rb.pucHead + after rb.xSize F before + rbHEADER_SIZE) = _
    rw [returnItem_eq geo valid at_ item out short, moved, Option.map_some]
    exact congrArg some cleared
  · have chainDrop : Chain m' rb.pucHead rb.xSize (after rb.xSize F dropped) (rest ++ waiting) := by
      apply chain_congr _ frame
      rw [← total] at chain'
      exact (chain_append.mp chain').2
    have fitsTaken := inv.takenFits
    have roomTaken : spans rb.xSize F taken ≤ rb.xSize := by omega
    rw [split] at fitsTaken roomTaken
    have left : parts rb.pucHead rb.xSize (after rb.xSize F dropped) rest =
        parts rb.pucHead rb.xSize F (before ++ b.returned :: later) := by
      rw [drop.split, parts_dropped drop.gone]
    refine ⟨⟨rfl, rfl, rfl, rfl, rfl⟩, ⟨⟨?_, validDrop, (fits_append.mp fitsTotal).2, chainDrop, ?_, rfl, ?_⟩, ?_, rfl,
      inv.count, ?_, inv.unread, ?_⟩, ?_, ?_, drop.stop, ?_⟩
    · exact ⟨geo.items, geo.enough, geo.whole, geo.aligned, geo.tail, geo.below, geo.maximum⟩
    · show spans rb.xSize _ _ ≤ rb.xSize
      omega
    · show rb.pucWrite = rb.pucHead + after rb.xSize (after rb.xSize F dropped) (rest ++ waiting)
      rw [afterTotal]
      exact inv.placed.write
    · show rb.pucRead = rb.pucHead + after rb.xSize (after rb.xSize F dropped) rest
      rw [afterTaken]
      exact inv.read
    · intro c member
      have inTotal : c ∈ before ++ b.returned :: (later ++ waiting) := by
        rw [← total]
        exact List.mem_append_right _ member
      rw [split] at lengths
      rcases List.mem_append.mp inTotal with early | here
      · exact lengths c (by simp only [List.mem_append]; exact .inl (.inl early))
      · rcases List.mem_cons.mp here with rfl | late
        · exact short
        · apply lengths c
          simp only [List.mem_append, List.mem_cons] at late ⊢
          rcases late with unread | wait
          · exact .inl (.inr (.inr unread))
          · exact .inr wait
    · show Ends rb.xSize (after rb.xSize (after rb.xSize F dropped) rest) waiting
      rw [afterTaken]
      exact inv.ends
    · rw [left, parts_returned geo.whole validF fitsTaken roomTaken item out, ← split]
      rfl
    · omega
    · intro q member x low high
      have inside := parts_inBlocks member low high
      refine (frame x (inBlocks_append.mpr (.inl inside))).trans ?_
      rw [left, parts_append, parts, if_pos (.inr (show b.returned.freed = true from rfl))] at member
      have outside : x < rb.pucHead + after rb.xSize F before ∨ rb.pucHead + after rb.xSize F before + 8 ≤ x := by
        apply header_apart geo.whole validF fitsTaken roomTaken
        rcases List.mem_append.mp member with early | late
        · exact .inl (parts_inBlocks early low high)
        · exact .inr (parts_inBlocks late low high)
      exact (header_other rb.memory outside 0 _).2

end

section
variable {head S off : Nat} {bs : List Blk}

theorem parts_stop (stop : ∀ b ∈ bs.head?, b.dummy = false ∧ b.freed = false)
    (none_ : parts head S off bs = []) : bs = [] := by
  cases bs with
  | nil => rfl
  | cons b bs =>
      obtain ⟨item, held⟩ := stop b rfl
      rw [parts, if_neg (by rw [item, held]; decide)] at none_
      cases none_

theorem parts_cons {p : Part} {rest : List Part} (held : parts head S off bs = p :: rest) :
    ∃ before b later, bs = before ++ b :: later ∧ b.dummy = false ∧ b.freed = false ∧
      p = partAt (head + after S off before) b ∧ parts head S off (before ++ b.returned :: later) = rest := by
  induction bs generalizing off with
  | nil => cases held
  | cons b bs ih =>
      rw [parts] at held
      split at held
      · rename_i out
        obtain ⟨before, c, later, rfl, item, unread, place, left⟩ := ih held
        refine ⟨b :: before, c, later, rfl, item, unread, place, ?_⟩
        rw [List.cons_append, parts, if_pos out]
        exact left
      · rename_i out
        obtain ⟨first, others⟩ := List.cons.inj held
        refine ⟨[], b, bs, rfl, by simpa using fun d => out (.inl d), by simpa using fun f => out (.inr f), first.symm, ?_⟩
        rw [List.nil_append, parts, if_pos (.inr (show b.returned.freed = true from rfl))]
        exact others

end

section
variable {rb : Ringbuffer} {F : Nat} {taken waiting bs : List Blk}

theorem returnParts_still (geo : Geometry rb) (valid : Valid rb.xSize F) (fits : Fits rb.xSize F bs)
    (room : spans rb.xSize F bs ≤ rb.xSize) (chain : Chain rb.memory rb.pucHead rb.xSize F bs)
    (lengths : ∀ b ∈ bs, b.data.length ≤ rb.xMaxItemSize) (still : rb.pucFree = rb.pucRead) {ps : List Part}
    (held : parts rb.pucHead rb.xSize F bs = ps) :
    ∃ m' full', returnParts ps rb = some { rb with memory := m', full := full' } ∧
      (full' = false ∨ ps = [] ∧ full' = rb.full) := by
  induction ps generalizing rb bs with
  | nil => exact ⟨rb.memory, rb.full, rfl, .inr ⟨rfl, rfl⟩⟩
  | cons p rest ih =>
      obtain ⟨before, b, later, rfl, item, unread, rfl, left⟩ := parts_cons held
      have validHere := after_valid geo.whole valid (fits_append.mp fits).1
      have at_ := (chain_append.mp chain).2.1
      have short := lengths b (List.mem_append_right _ List.mem_cons_self)
      obtain ⟨m', full', run, clear⟩ := @ih { marked rb (after rb.xSize F before) b with full := false }
        (before ++ b.returned :: later)
        ⟨geo.items, geo.enough, geo.whole, geo.aligned, geo.tail, geo.below, geo.maximum⟩ valid (fits_returned fits)
        (by rw [spans_returned]; exact room) (mark_chain geo.whole valid fits room chain)
        (by
          intro c member
          rcases List.mem_append.mp member with early | here
          · exact lengths c (List.mem_append_left _ early)
          · rcases List.mem_cons.mp here with rfl | late
            · exact short
            · exact lengths c (List.mem_append_right _ (List.mem_cons_of_mem b late)))
        still left
      refine ⟨m', full', ?_, ?_⟩
      · have given : rb.vReturnItem (partAt (rb.pucHead + after rb.xSize F before) b).ptr = _ :=
          return_still geo validHere at_ item unread short still
        rw [returnParts, given]
        exact run
      · rcases clear with cleared | ⟨-, same⟩
        · exact .inl cleared
        · exact .inl same

theorem returnParts_some (inv : RingInv rb F taken waiting) (less : spans rb.xSize F taken < rb.xSize)
    (stop : parts rb.pucHead rb.xSize F taken = [] → taken = []) {ps : List Part}
    (held : parts rb.pucHead rb.xSize F taken = ps) :
    ∃ rb' F', returnParts ps rb = some rb' ∧ SameRing rb rb' ∧ RingInv rb' F' [] waiting := by
  induction ps generalizing rb F taken with
  | nil =>
      have none_ := stop held
      subst none_
      exact ⟨rb, F, rfl, ⟨rfl, rfl, rfl, rfl, rfl⟩, inv⟩
  | cons p rest ih =>
      obtain ⟨rb', F', taken', given, back⟩ := return_spec inv less (by rw [held]; exact List.mem_cons_self)
      have left : parts rb'.pucHead rb'.xSize F' taken' = rest := by
        obtain ⟨before, b, later, split, item, unread, rfl, others⟩ := parts_cons held
        have fits := inv.takenFits
        rw [split] at fits less
        rw [back.same.head, back.same.size, back.parts, split, ← others]
        exact (parts_returned inv.placed.geo.whole inv.placed.valid fits (by omega) item unread).symm
      have smaller := back.less
      obtain ⟨rb'', F'', run, same, inv'⟩ := ih back.inv (by rw [back.same.size]; omega)
        (parts_stop back.stop) left
      refine ⟨rb'', F'', ?_, back.same.trans same, inv'⟩
      rw [returnParts, given]
      exact run

theorem RingInv.readAll (inv : RingInv rb F taken waiting) (whole : spans rb.xSize F taken = rb.xSize) :
    waiting = [] ∧ rb.full = true ∧ rb.pucRead = rb.pucFree ∧ rb.pucWrite = rb.pucFree := by
  have room := inv.takenRoom
  have more := length_le_spans inv.blocks.1
  have none_ : waiting = [] := List.length_eq_zero_iff.mp (by omega)
  subst none_
  have back : after rb.xSize F taken = F := by rw [inv.read_eq, whole, advance_size]
  refine ⟨rfl, ?_, ?_, ?_⟩
  · rw [inv.full, List.append_nil]
    exact decide_eq_true whole
  · rw [inv.read, inv.placed.free, back]
  · rw [inv.placed.write, inv.placed.free, List.append_nil, back]

theorem returnParts_spec (inv : RingInv rb F taken waiting)
    (stop : parts rb.pucHead rb.xSize F taken = [] → taken = []) :
    ∃ rb' F', returnParts (parts rb.pucHead rb.xSize F taken) rb = some rb' ∧ SameRing rb rb' ∧
      RingInv rb' F' [] waiting := by
  have geo := inv.placed.geo
  have enough := geo.enough
  have room := inv.takenRoom
  by_cases whole : spans rb.xSize F taken = rb.xSize
  · obtain ⟨none_, full, read, write⟩ := inv.readAll whole
    subst none_
    have fits := inv.placed.fits
    have chain := inv.placed.chain
    have lengths := inv.lengths
    rw [List.append_nil] at fits chain lengths
    obtain ⟨m', full', run, clear⟩ := returnParts_still geo inv.placed.valid fits (by omega) chain lengths read.symm rfl
    have free := inv.placed.free
    have cleared : full' = false := by
      rcases clear with cleared | ⟨empty, -⟩
      · exact cleared
      · rw [stop empty] at whole
        have : 0 = rb.xSize := whole
        omega
    refine ⟨{ rb with memory := m', full := full' }, F, run, ⟨rfl, rfl, rfl, rfl, rfl⟩, ?_⟩
    apply ringInv_empty
    · exact ⟨geo.items, geo.enough, geo.whole, geo.aligned, geo.tail, geo.below, geo.maximum⟩
    · exact inv.placed.valid
    · exact free
    · exact read.trans free
    · exact write.trans free
    · exact cleared
    · exact inv.count
  · exact returnParts_some inv (by omega) stop rfl

end

end EspFirmware.Proof.Rtos
