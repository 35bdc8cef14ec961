import EspFirmware.Proof.Rtos.Send

/-!
Receiving moves the read pointer over the blocks of an item.
-/

namespace EspFirmware.Proof.Rtos
open EspFirmware.Lib Lib.Memory EspFirmware.Rtos EspFirmware.Spec

inductive Queue : List Blk → List (List (BitVec 8)) → Prop
  | nil : Queue [] []
  | cons {new rest : List Blk} {item : List (BitVec 8)} {items : List (List (BitVec 8))} (first : Carries new item)
      (later : Queue rest items) : Queue (new ++ rest) (item :: items)

theorem Queue.append {bs new : List Blk} {items : List (List (BitVec 8))} {item : List (BitVec 8)}
    (queue : Queue bs items) (last : Carries new item) : Queue (bs ++ new) (items ++ [item]) := by
  induction queue with
  | nil =>
      have single := Queue.cons last .nil
      rw [List.append_nil] at single
      exact single
  | cons first later ih =>
      rw [List.append_assoc, List.cons_append]
      exact .cons first ih

def partAt (a : Nat) (b : Blk) : Part := ⟨a + rbHEADER_SIZE, b.data.length, b.split⟩

def parts (head S : Nat) : Nat → List Blk → List Part
  | _, [] => []
  | off, b :: bs =>
      if b.dummy ∨ b.freed then parts head S (next S off b) bs
      else partAt (head + off) b :: parts head S (next S off b) bs

theorem parts_append (head S off : Nat) (as bs : List Blk) :
    parts head S off (as ++ bs) = parts head S off as ++ parts head S (after S off as) bs := by
  induction as generalizing off with
  | nil => rfl
  | cons b as ih =>
      simp only [List.cons_append, parts, after_cons, ih]
      split
      · rfl
      · rw [List.cons_append]

section
variable {rb : Ringbuffer} {F : Nat} {taken waiting rest : List Blk} {b d : Blk}

theorem RingInv.blocks (inv : RingInv rb F taken waiting) :
    Fits rb.xSize (after rb.xSize F taken) waiting ∧
      Chain rb.memory rb.pucHead rb.xSize (after rb.xSize F taken) waiting :=
  ⟨(fits_append.mp inv.placed.fits).2, (chain_append.mp inv.placed.chain).2⟩

theorem RingInv.somethingToRead (inv : RingInv rb F taken waiting) (item : b ∈ waiting) (real : b.dummy = false) :
    rb.somethingToRead := by
  have roomF := inv.placed.valid.room
  have room := inv.takenRoom
  have more := length_le_spans inv.blocks.1
  have nonempty := List.length_pos_of_mem item
  constructor
  · rw [inv.count]
    have counted : b ∈ waiting.filter isItem := List.mem_filter.mpr ⟨item, by unfold isItem; rw [real]; rfl⟩
    have := List.length_pos_of_mem counted
    omega
  · by_cases whole : spans rb.xSize F (taken ++ waiting) = rb.xSize
    · right
      rw [inv.full]
      exact decide_eq_true whole
    · left
      rw [inv.read, inv.read_eq, inv.placed.write, inv.placed.after_eq]
      intro same
      rw [spans_append] at same whole
      have := @advance_inj rb.xSize F _ _ (by omega) (by omega) (Nat.add_left_cancel same)
      omega

theorem nothingToRead (inv : RingInv rb F taken []) : ¬ rb.somethingToRead := by
  rintro ⟨some_, -⟩
  rw [inv.count] at some_
  simp at some_

theorem RingInv.moved {moved : List Blk} (inv : RingInv rb F taken (moved ++ rest)) {pucRead : Nat} {count : Int}
    (read : pucRead = rb.pucHead + after rb.xSize F (taken ++ moved)) (one : count = (rest.filter isItem).length) :
    RingInv { rb with xItemsWaiting := count, pucRead := pucRead } F (taken ++ moved) rest := by
  have placed := inv.placed
  rw [← List.append_assoc] at placed
  have full := inv.full
  rw [← List.append_assoc] at full
  have lengths := inv.lengths
  rw [← List.append_assoc] at lengths
  refine ⟨⟨⟨placed.geo.items, placed.geo.enough, placed.geo.whole, placed.geo.aligned, placed.geo.tail,
    placed.geo.below, placed.geo.maximum⟩, placed.valid, placed.fits, placed.chain, placed.room, placed.free,
    placed.write⟩, read, full, one, lengths, ?_, ?_⟩
  · intro c member
    exact inv.unread c (List.mem_append_right moved member)
  · rw [after_append]
    exact (ends_append.mp inv.ends).2

theorem getFrom {off : Nat} (geo : Geometry rb) (valid : Valid rb.xSize off) (fits : off + b.size ≤ rb.xSize)
    (item : b.dummy = false) :
    (if rb.pucTail - (rb.pucHead + off + (rbHEADER_SIZE + rbALIGN_SIZE b.data.length)) < rbHEADER_SIZE then rb.pucHead
      else rb.pucHead + off + (rbHEADER_SIZE + rbALIGN_SIZE b.data.length)) = rb.pucHead + next rb.xSize off b ∧
    (rb.pucHead ≤ rb.pucHead + off + rbHEADER_SIZE ∧
      if b.data.length = 0 then rb.pucHead + off + rbHEADER_SIZE ≤ rb.pucTail
      else rb.pucHead + off + rbHEADER_SIZE < rb.pucTail) := by
  have size : b.size = rbHEADER_SIZE + rbALIGN_SIZE b.data.length := rfl
  have align := align_bounds b.data.length
  have tail := geo.tail
  have room := valid.room
  rw [next_eq valid fits item, ← size]
  unfold rbHEADER_SIZE at *
  constructor
  · have left : rb.pucTail - (rb.pucHead + off + b.size) = rb.xSize - (off + b.size) := by omega
    rw [left]
    split <;> omega
  · split <;> omega

theorem getItem_spec (inv : RingInv rb F taken (b :: rest)) (item : b.dummy = false) :
    ∃ rb', rb.prvGetItemDefault = some (partAt (rb.pucHead + after rb.xSize F taken) b, rb') ∧ SameRing rb rb' ∧
      rb'.memory = rb.memory ∧ RingInv rb' F (taken ++ [b]) rest := by
  have geo := inv.placed.geo
  obtain ⟨fits, chain⟩ := inv.blocks
  have valid := inv.readValid
  have room := valid.room
  have aligned := valid.aligned
  have head := geo.aligned
  have read := inv.read
  obtain ⟨moved, inBounds⟩ := getFrom geo valid fits.1 item
  have flags := chain.1.flags
  have len := chain.1.len
  have isDummy : ¬ (uxItemFlags rb.memory rb.pucRead &&& rbITEM_DUMMY_DATA_FLAG ≠ 0) := by
    have test := flags_dummy b
    rw [item] at test
    rw [read, flags]
    exact of_decide_eq_false test
  have short := inv.lengths b (List.mem_append_right _ List.mem_cons_self)
  unfold Ringbuffer.prvGetItemDefault configASSERT
  dsimp only
  rw [if_pos (inv.somethingToRead List.mem_cons_self item), if_pos (by unfold rbAligned; omega),
    if_pos (by unfold Ringbuffer.readInBounds; rw [geo.tail]; omega), if_neg isDummy, read, len, if_pos (.inl short),
    if_pos (.inl (by rw [← read]; exact isDummy)), if_pos inBounds]
  refine ⟨{ rb with
    xItemsWaiting := rb.xItemsWaiting - 1
    pucRead := rb.pucHead + next rb.xSize (after rb.xSize F taken) b }, ?_, ⟨rfl, rfl, rfl, rfl, rfl⟩, rfl, ?_⟩
  · rw [moved, flags, flags_split]
    rfl
  · apply @RingInv.moved rb F taken rest [b] inv
    · rw [after_append]
      rfl
    · rw [inv.count, List.filter_cons_of_pos (by unfold isItem; rw [item]; rfl), List.length_cons]
      omega

theorem getItem_dummy (inv : RingInv rb F taken (d :: b :: rest)) (dummy : d.dummy = true) (item : b.dummy = false) :
    ∃ rb', rb.prvGetItemDefault = some (partAt rb.pucHead b, rb') ∧ SameRing rb rb' ∧ rb'.memory = rb.memory ∧
      RingInv rb' F (taken ++ [d, b]) rest := by
  have geo := inv.placed.geo
  obtain ⟨fits, chain⟩ := inv.blocks
  have valid := inv.readValid
  have zero := next_dummy valid dummy
  have room := valid.room
  have aligned := valid.aligned
  have head := geo.aligned
  have read := inv.read
  have fitsItem := fits.2.1
  have at_ := chain.2.1
  rw [zero] at fitsItem at_
  obtain ⟨moved, inBounds⟩ := getFrom geo ⟨rfl, by have := geo.enough; omega⟩ fitsItem item
  rw [Nat.add_zero] at at_ moved inBounds
  have flags := at_.flags
  have len := at_.len
  have isDummy : uxItemFlags rb.memory rb.pucRead &&& rbITEM_DUMMY_DATA_FLAG ≠ 0 := by
    have test := flags_dummy d
    rw [dummy] at test
    rw [read, chain.1.flags]
    exact of_decide_eq_true test
  have short := inv.lengths b (List.mem_append_right _ (List.mem_cons_of_mem d List.mem_cons_self))
  unfold Ringbuffer.prvGetItemDefault configASSERT
  dsimp only
  rw [if_pos (inv.somethingToRead (List.mem_cons_of_mem d List.mem_cons_self) item),
    if_pos (by unfold rbAligned; omega), if_pos (by unfold Ringbuffer.readInBounds; rw [geo.tail]; omega),
    if_pos isDummy, len, if_pos (.inr isDummy), if_pos (.inr short), if_pos inBounds]
  refine ⟨{ rb with
    xItemsWaiting := rb.xItemsWaiting - 1
    pucRead := rb.pucHead + next rb.xSize 0 b }, ?_, ⟨rfl, rfl, rfl, rfl, rfl⟩, rfl, ?_⟩
  · rw [moved, flags, flags_split]
    rfl
  · apply @RingInv.moved rb F taken rest [d, b] inv
    · rw [after_append]
      show _ = rb.pucHead + next rb.xSize (next rb.xSize (after rb.xSize F taken) d) b
      rw [zero]
    · rw [inv.count, List.filter_cons_of_neg (by unfold isItem; rw [dummy]; decide),
        List.filter_cons_of_pos (by unfold isItem; rw [item]; rfl), List.length_cons]
      omega

theorem pvGetItem_eq (geo : Geometry rb) (xMaxSize : Nat) : rb.pvGetItem xMaxSize = rb.prvGetItemDefault := by
  unfold Ringbuffer.pvGetItem
  cases type : rb.type with
  | noSplit => rfl
  | allowSplit => rfl
  | byteBuf => exact absurd type geo.items

theorem avail_eq (geo : Geometry rb) : rb.prvCheckItemAvail = decide rb.somethingToRead := by
  unfold Ringbuffer.prvCheckItemAvail
  rw [if_neg (fun both => geo.items both.1)]

end

structure Received (rb rb' : Ringbuffer) (F : Nat) (taken waiting : List Blk) (items : List (List (BitVec 8)))
    (both : Bool) (ps : List Part) (moved rest : List Blk) : Prop where
  split : waiting = moved ++ rest
  inv : RingInv rb' F (taken ++ moved) rest
  same : SameRing rb rb'
  memory : rb'.memory = rb.memory
  parts : ps = parts rb.pucHead rb.xSize (after rb.xSize F taken) moved
  some_ : ps ≠ []
  queue : ∃ items', Queue rest items' ∧ ((rb.type = .allowSplit ∧ both = true ∨ ∀ b ∈ waiting, b.split = false) →
    items = ps.flatMap (partBytes rb.memory) :: items')

section
variable {rb : Ringbuffer} {F : Nat} {taken waiting rest : List Blk}

theorem partBytes_partAt {m : Lib.Memory} {a : Nat} {b : Blk} (at_ : BlkAt m a b) : partBytes m (partAt a b) = b.data :=
  at_.data

theorem receive_nothing (inv : RingInv rb F taken []) (both : Bool) (xMaxSize : Nat) :
    rb.prvReceiveGeneric both xMaxSize = some ([], rb) := by
  unfold Ringbuffer.prvReceiveGeneric
  rw [avail_eq inv.placed.geo, decide_eq_false (nothingToRead inv)]
  rfl

theorem receive_first {rb' : Ringbuffer} {p : Part} (inv : RingInv rb F taken waiting) {b : Blk} (member : b ∈ waiting)
    (real : b.dummy = false) (get : rb.prvGetItemDefault = some (p, rb')) (both : Bool) (xMaxSize : Nat) :
    rb.prvReceiveGeneric both xMaxSize = rb'.getSecondPart both p := by
  unfold Ringbuffer.prvReceiveGeneric
  rw [avail_eq inv.placed.geo, decide_eq_true (inv.somethingToRead member real), if_pos rfl,
    pvGetItem_eq inv.placed.geo, get]
  rfl

theorem getSecondPart_whole (rb : Ringbuffer) (both : Bool) {p : Part} (whole : p.split = false) :
    rb.getSecondPart both p = some ([p], rb) := by
  unfold Ringbuffer.getSecondPart
  rw [if_neg]
  rintro ⟨-, -, split⟩
  rw [whole] at split
  cases split

theorem receive_some (inv : RingInv rb F taken waiting) {items : List (List (BitVec 8))} (queue : Queue waiting items)
    (nonempty : waiting ≠ []) (both : Bool) (xMaxSize : Nat) :
    ∃ rb' ps moved rest, rb.prvReceiveGeneric both xMaxSize = some (ps, rb') ∧
      Received rb rb' F taken waiting items both ps moved rest := by
  cases queue with
  | nil => exact absurd rfl nonempty
  | @cons new rest item items first later =>
      have chain := inv.blocks.2
      have valid := inv.readValid
      cases first with
      | item =>
          obtain ⟨rb', get, same, memory, after_⟩ := getItem_spec inv rfl
          have whole : (partAt (rb.pucHead + after rb.xSize F taken) (itemBlk item)).split = false := rfl
          rw [receive_first inv List.mem_cons_self rfl get, getSecondPart_whole _ _ whole]
          refine ⟨rb', _, [itemBlk item], rest, rfl, rfl, after_, same, memory, rfl, nofun, items, later, fun _ => ?_⟩
          rw [List.flatMap_cons, List.flatMap_nil, List.append_nil, partBytes_partAt chain.1]
          rfl
      | behindDummy =>
          obtain ⟨rb', get, same, memory, after_⟩ := getItem_dummy inv rfl rfl
          have whole : (partAt rb.pucHead (itemBlk item)).split = false := rfl
          have zero := @next_dummy rb.xSize _ dummyBlk valid rfl
          have at_ := chain.2.1
          rw [zero, Nat.add_zero] at at_
          rw [receive_first inv (List.mem_cons_of_mem _ List.mem_cons_self) rfl get, getSecondPart_whole _ _ whole]
          refine ⟨rb', _, [dummyBlk, itemBlk item], rest, rfl, rfl, after_, same, memory, ?_, nofun, items, later,
            fun _ => ?_⟩
          · show [partAt rb.pucHead (itemBlk item)] =
              [partAt (rb.pucHead + next rb.xSize (after rb.xSize F taken) dummyBlk) (itemBlk item)]
            rw [zero, Nat.add_zero]
          · rw [List.flatMap_cons, List.flatMap_nil, List.append_nil, partBytes_partAt at_]
            rfl
      | split d e =>
          obtain ⟨rb', get, same, memory, after_⟩ := getItem_spec inv rfl
          rw [receive_first inv List.mem_cons_self rfl get]
          unfold Ringbuffer.getSecondPart
          by_cases asked : rb.type = .allowSplit ∧ both = true
          · rw [if_pos (by rw [same.type]; exact ⟨asked.1, asked.2, rfl⟩)]
            obtain ⟨rb'', get', same', memory', after_'⟩ := getItem_spec after_ rfl
            have ends := inv.ends.1 rfl
            have zero : next rb.xSize (after rb.xSize F taken) (firstBlk d) = 0 := by
              rw [next_eq valid inv.blocks.1.1 rfl, if_pos (by unfold rbHEADER_SIZE; omega)]
            have place : rb'.pucHead + after rb'.xSize F (taken ++ [firstBlk d]) = rb.pucHead := by
              rw [same.head, same.size, after_append]
              show rb.pucHead + next rb.xSize (after rb.xSize F taken) (firstBlk d) = rb.pucHead
              rw [zero, Nat.add_zero]
            have at_ := chain.2.1
            rw [zero, Nat.add_zero] at at_
            rw [place] at get'
            rw [get', Option.bind_some]
            unfold configASSERT partAt
            dsimp only
            rw [if_pos (by omega), if_pos (show (itemBlk e).split = false from rfl)]
            refine ⟨rb'', _, [firstBlk d, itemBlk e], rest, rfl, rfl, ?_, same.trans same', memory'.trans memory, ?_,
              nofun, items, later, fun _ => ?_⟩
            · have moved := after_'
              rw [List.append_assoc] at moved
              exact moved
            · show _ = [partAt (rb.pucHead + after rb.xSize F taken) (firstBlk d),
                partAt (rb.pucHead + next rb.xSize (after rb.xSize F taken) (firstBlk d)) (itemBlk e)]
              rw [zero, Nat.add_zero]
              rfl
            · rw [List.flatMap_cons, List.flatMap_cons, List.flatMap_nil, List.append_nil]
              have first := partBytes_partAt chain.1
              have second := partBytes_partAt at_
              rw [partAt] at first second
              rw [first, second]
              rfl
          · rw [if_neg (by rw [same.type]; exact fun all => asked ⟨all.1, all.2.1⟩)]
            refine ⟨rb', _, [firstBlk d], itemBlk e :: rest, rfl, rfl, after_, same, memory, rfl, nofun, e :: items,
              .cons (.item e) later, ?_⟩
            rintro (both_ | whole)
            · exact absurd both_ asked
            · have := whole (firstBlk d) List.mem_cons_self
              cases this

end

end EspFirmware.Proof.Rtos
