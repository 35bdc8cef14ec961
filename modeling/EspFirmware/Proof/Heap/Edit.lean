import EspFirmware.Proof.Heap.Links

/-!
Changes to the links: a block is relinked, cut in two, taken, released, or joined with its neighbour.
-/

namespace EspFirmware.Proof.Heap
open EspFirmware.Lib Memory EspFirmware.Heap EspFirmware.Spec

variable {m : Memory} {prev a : Nat} {b : Blk} {bs : List Blk}

def Frame (m m' : Memory) (lo hi : Nat) : Prop := ∀ x, x < lo ∨ hi ≤ x → m' x = m x

theorem Frame.trans {m m' m'' : Memory} {lo hi : Nat} (first : Frame m m' lo hi) (second : Frame m' m'' lo hi) :
    Frame m m'' lo hi := fun x outside => (second x outside).trans (first x outside)

theorem Frame.mono {m m' : Memory} {lo hi lo' hi' : Nat} (frame : Frame m m' lo hi) (low : lo' ≤ lo)
    (high : hi ≤ hi') : Frame m m' lo' hi' := fun x outside => frame x (by omega)

theorem memBlkSetPrev_eq {old new : Nat} {flag : Bool} (word : load32 m a = link old flag) (small : old < 2 ^ 31) :
    memBlkSetPrev m a new = store32 m a (link new flag) := by
  rw [memBlkSetPrev, word, MEM_BLK_TAG, link_and_top small, link]

theorem memBlkSetNext_eq {old new : Nat} {flag : Bool} (word : load32 m (a + 4) = link old flag)
    (small : old < 2 ^ 31) : memBlkSetNext m a new = store32 m (a + 4) (link new flag) := by
  rw [memBlkSetNext, word, MEM_BLK_TRACE, link_and_top small, link]

theorem blkAt_storePrev (at_ : BlkAt m prev a b) {new : Nat} {used : Bool} (free : used = false → b.traced = false) :
    BlkAt (store32 m a (link new used)) new a { b with used := used } where
  prev := load32_store32 m a _
  next := by rw [load32_store32_of_apart m _ (by omega)]; exact at_.next
  line traced := by rw [load32_store32_of_apart m _ (by omega)]; exact at_.line traced
  room := at_.room
  aligned := at_.aligned
  free := free

theorem blkAt_storeNext (at_ : BlkAt m prev a b) (size : Nat) (room : b.head ≤ size) (aligned : size % 4 = 0) :
    BlkAt (store32 m (a + 4) (link (a + size) b.traced)) prev a { b with size := size } where
  prev := by rw [load32_store32_of_apart m _ (by omega)]; exact at_.prev
  next := load32_store32 m (a + 4) _
  line traced := by rw [load32_store32_of_apart m _ (by omega)]; exact at_.line traced
  room := room
  aligned := aligned
  free := at_.free

theorem run_before {m' : Memory} (run : Run m prev a bs) (same : ∀ x, x < a + total bs → m' x = m x) :
    Run m' prev a bs := by
  refine run_congr (fun x inside => same x ?_) run
  exact (inHeader_bounds run inside).2

theorem linked_after {m' : Memory} (linked : Linked m prev a bs) (same : ∀ x, a ≤ x → m' x = m x) :
    Linked m' prev a bs := by
  refine linked_congr (fun x inside => same x ?_) linked
  rcases inside with header | last
  · exact (inHeader_bounds linked.1 header).1
  · omega

theorem linked_setPrev (linked : Linked m prev a bs) (small : prev < 2 ^ 31) (new : Nat) :
    Linked (memBlkSetPrev m a new) new a bs := by
  cases bs with
  | nil =>
      obtain ⟨-, atPrev, atNext⟩ := linked
      rw [lastAddr, total_nil, Nat.add_zero] at atPrev
      rw [memBlkSetPrev_eq atPrev small]
      refine ⟨trivial, load32_store32 m a _, ?_⟩
      rw [total_nil, Nat.add_zero] at atNext ⊢
      rw [load32_store32_of_apart m _ (by omega)]
      exact atNext
  | cons b bs =>
      rw [linked_cons] at linked ⊢
      have room := linked.1.room
      have head := head_ge b
      rw [memBlkSetPrev_eq linked.1.prev small]
      refine ⟨blkAt_storePrev linked.1 linked.1.free, linked_after linked.2 fun x low => ?_⟩
      exact store32_other m _ (by omega)

theorem memBlkSetPrev_other {new x : Nat} (outside : x < a ∨ a + 4 ≤ x) : memBlkSetPrev m a new x = m x :=
  store32_other m _ outside

theorem memBlkSetNext_other {new x : Nat} (outside : x < a + 4 ∨ a + 8 ≤ x) : memBlkSetNext m a new x = m x :=
  store32_other m _ (by omega)

theorem linked_join {s t : Nat} (linked : Linked m prev a (freeBlock s :: freeBlock t :: bs))
    (small : a + s + t < 2 ^ 31) :
    Linked (memBlkSetPrev (memBlkSetNext m a (a + s + t)) (a + s + t) a) prev a (freeBlock (s + t) :: bs) := by
  rw [linked_cons, linked_cons] at linked
  obtain ⟨first, second, rest⟩ := linked
  have roomFirst : 8 ≤ s := first.room
  have roomSecond : 8 ≤ t := second.room
  have alignedFirst : s % 4 = 0 := first.aligned
  have alignedSecond : t % 4 = 0 := second.aligned
  have next : memBlkSetNext m a (a + s + t) = store32 m (a + 4) (link (a + (s + t)) false) := by
    rw [memBlkSetNext_eq first.next (by dsimp only; omega), Nat.add_assoc]
  have wide := blkAt_storeNext first (s + t) (by show 8 ≤ s + t; omega) (by omega)
  have restKept : Linked (memBlkSetNext m a (a + s + t)) (a + s) (a + s + t) bs :=
    linked_after rest fun x low => memBlkSetNext_other (by omega)
  rw [linked_cons]
  refine ⟨blkAt_congr (fun x low high => ?_) (next ▸ wide), ?_⟩
  · apply memBlkSetPrev_other
    have : x < a + 8 := high
    omega
  · have relinked := linked_setPrev restKept (by omega) a
    rw [← Nat.add_assoc]
    exact relinked

theorem join_frame (m : Memory) {a d : Nat} (le : a + 4 ≤ d) :
    Frame m (memBlkSetPrev (memBlkSetNext m a d) d a) a (d + 4) := by
  intro x outside
  rw [memBlkSetPrev_other (by omega), memBlkSetNext_other (by omega)]

theorem splitBlk_linked {s k : Nat} (linked : Linked m prev a (freeBlock s :: bs)) (small : a + s < 2 ^ 31)
    (low : 8 ≤ k) (high : k + 8 ≤ s) (aligned : k % 4 = 0) :
    Linked (splitBlk m a (a + k)) prev a (freeBlock k :: freeBlock (s - k) :: bs) ∧
      Frame m (splitBlk m a (a + k)) a (a + s + 4) := by
  rw [linked_cons] at linked
  obtain ⟨block, rest⟩ := linked
  have alignedBlock : s % 4 = 0 := block.aligned
  -- the new header is cleared
  let m1 := store32 (store32 m (a + k + 4) 0) (a + k) 0
  have same1 : ∀ x, x < a + k ∨ a + k + 8 ≤ x → m1 x = m x := by
    intro x outside
    rw [show m1 x = store32 (store32 m (a + k + 4) 0) (a + k) 0 x from rfl, store32_other _ _ (by omega),
      store32_other _ _ (by omega)]
  have prev1 : load32 m1 (a + k) = link 0 false := load32_store32 _ _ _
  have next1 : load32 m1 (a + k + 4) = link 0 false := by
    rw [show m1 = store32 (store32 m (a + k + 4) 0) (a + k) 0 from rfl, load32_store32_of_apart _ _ (by omega),
      load32_store32]
    rfl
  have block1 : BlkAt m1 prev a (freeBlock s) :=
    blkAt_congr (fun x _ high => same1 x (Or.inl (by have : x < a + 8 := high; omega))) block
  -- and linked between the block and the one after it
  let m2 := memBlkSetPrev m1 (a + k) a
  have eq2 : m2 = store32 m1 (a + k) (link a false) := memBlkSetPrev_eq prev1 (by decide)
  have block2 : BlkAt m2 prev a (freeBlock s) :=
    blkAt_congr (fun x _ high => memBlkSetPrev_other (by have : x < a + 8 := high; omega)) block1
  have next2 : memBlkNext m2 a = a + s := memBlkNext_eq block2 small
  let m3 := memBlkSetNext m2 (a + k) (a + s)
  have word2 : load32 m2 (a + k + 4) = link 0 false := by
    rw [eq2, load32_store32_of_apart _ _ (by omega), next1]
  have eq3 : m3 = store32 m2 (a + k + 4) (link (a + s) false) := memBlkSetNext_eq word2 (by decide)
  have block3 : BlkAt m3 prev a (freeBlock s) :=
    blkAt_congr (fun x _ high => memBlkSetNext_other (by have : x < a + 8 := high; omega)) block2
  have new3 : BlkAt m3 a (a + k) (freeBlock (s - k)) := by
    have place : a + k + (s - k) = a + s := by omega
    constructor
    · rw [eq3, load32_store32_of_apart _ _ (by omega), eq2, load32_store32]
    · rw [eq3, load32_store32, place]
    · exact nofun
    · show 8 ≤ s - k
      omega
    · show (s - k) % 4 = 0
      omega
    · exact fun _ => rfl
  have rest3 : Linked m3 a (a + s) bs := by
    refine linked_after rest fun x low => ?_
    rw [show m3 x = m2 x from memBlkSetNext_other (by omega), show m2 x = m1 x from memBlkSetPrev_other (by omega),
      same1 x (by omega)]
  -- the neighbours follow
  have next3 : memBlkNext m3 a = a + s := memBlkNext_eq block3 small
  let m4 := memBlkSetPrev m3 (a + s) (a + k)
  have rest4 : Linked m4 (a + k) (a + s) bs := linked_setPrev rest3 (by omega) (a + k)
  have block4 : BlkAt m4 prev a (freeBlock s) :=
    blkAt_congr (fun x _ high => memBlkSetPrev_other (by have : x < a + 8 := high; omega)) block3
  have new4 : BlkAt m4 a (a + k) (freeBlock (s - k)) :=
    blkAt_congr (fun x _ high => memBlkSetPrev_other (by have : x < a + k + 8 := high; omega)) new3
  have final : splitBlk m a (a + k) = store32 m4 (a + 4) (link (a + k) false) := by
    have unfolded : splitBlk m a (a + k) =
        memBlkSetNext (memBlkSetPrev (memBlkSetNext m2 (a + k) (memBlkNext m2 a))
          (memBlkNext (memBlkSetNext m2 (a + k) (memBlkNext m2 a)) a) (a + k)) a (a + k) := rfl
    rw [unfolded, next2]
    change memBlkSetNext (memBlkSetPrev m3 (memBlkNext m3 a) (a + k)) a (a + k) = _
    rw [next3]
    exact memBlkSetNext_eq block4.next small
  rw [final, linked_cons, linked_cons]
  refine ⟨⟨blkAt_storeNext block4 k low aligned, ?_, ?_⟩, ?_⟩
  · exact blkAt_congr (fun x low _ => store32_other _ _ (by dsimp only at low; omega)) new4
  · have place : a + k + (s - k) = a + s := by omega
    rw [show a + (freeBlock k).size + (freeBlock (s - k)).size = a + s from place]
    exact linked_after rest4 fun x low => store32_other _ _ (by omega)
  · intro x outside
    rw [store32_other _ _ (by omega), show m4 x = m3 x from memBlkSetPrev_other (by omega),
      show m3 x = m2 x from memBlkSetNext_other (by omega), show m2 x = m1 x from memBlkSetPrev_other (by omega),
      same1 x (by omega)]

theorem setUsed_linked {s : Nat} (linked : Linked m prev a (freeBlock s :: bs)) (small : prev < 2 ^ 31) :
    Linked (memBlkSetUsed m a) prev a (⟨s, true, false⟩ :: bs) := by
  rw [linked_cons] at linked ⊢
  have room : 8 ≤ s := linked.1.room
  have word : memBlkSetUsed m a = store32 m a (link prev true) := by
    rw [memBlkSetUsed, linked.1.prev, MEM_BLK_TAG, link_or_top small]
  rw [word]
  refine ⟨blkAt_storePrev linked.1 (by intro unused; cases unused), linked_after linked.2 fun x low => ?_⟩
  exact store32_other m _ (by dsimp only at low; omega)

theorem setTraced_linked {s : Nat} {file line : Word} (linked : Linked m prev a (⟨s, true, false⟩ :: bs))
    (small : a + s < 2 ^ 31) (room : 16 ≤ s) :
    Linked (memBlkSetTraced m a file line) prev a (⟨s, true, true⟩ :: bs) := by
  rw [linked_cons] at linked ⊢
  obtain ⟨block, rest⟩ := linked
  unfold memBlkSetTraced
  dsimp only
  rw [block.next, MEM_BLK_TRACE, link_or_top small]
  refine ⟨⟨?_, ?_, ?_, room, block.aligned, (by intro untraced; cases untraced)⟩, linked_after rest fun x low => ?_⟩
  · rw [load32_store32_of_apart _ _ (by omega), load32_store32_of_apart _ _ (by omega),
      load32_store32_of_apart _ _ (by omega)]
    exact block.prev
  · rw [load32_store32_of_apart _ _ (by omega), load32_store32_of_apart _ _ (by omega), load32_store32]
  · intro _
    rw [load32_store32]
    apply BitVec.eq_of_getLsbD_eq
    intro i inside
    rw [BitVec.getLsbD_and, BitVec.getLsbD_or]
    cases topBit.getLsbD i <;> simp
  · rw [store32_other _ _ (by omega), store32_other _ _ (by omega), store32_other _ _ (by omega)]

theorem release_linked (linked : Linked m prev a (b :: bs)) (smallPrev : prev < 2 ^ 31)
    (small : a + b.size < 2 ^ 31) :
    Linked (memBlkSetUntraced (memBlkSetUnused m a) a) prev a (freeBlock b.size :: bs) := by
  rw [linked_cons] at linked ⊢
  obtain ⟨block, rest⟩ := linked
  have head := head_ge b
  have room := block.room
  have first : memBlkSetUnused m a = store32 m a (link prev false) := by
    rw [memBlkSetUnused, block.prev, MEM_BLK_TAG, link_and_not_top smallPrev]
  have second : memBlkSetUntraced (memBlkSetUnused m a) a =
      store32 (store32 m a (link prev false)) (a + 4) (link (a + b.size) false) := by
    rw [memBlkSetUntraced, first, load32_store32_of_apart _ _ (by omega), block.next, MEM_BLK_TRACE,
      link_and_not_top small]
  rw [second]
  refine ⟨⟨?_, load32_store32 _ _ _, (by intro traced; cases traced), ?_, block.aligned, fun _ => rfl⟩,
    linked_after rest fun x low => ?_⟩
  · rw [load32_store32_of_apart _ _ (by omega), load32_store32]
  · show 8 ≤ b.size
    omega
  · have after : a + b.size ≤ x := low
    rw [store32_other _ _ (by omega), store32_other _ _ (by omega)]

def taken (s k : Nat) (trace : Bool) : List Blk :=
  if k + memBlkHeadSize trace + MEM_BLK_MIN ≤ s then [⟨k, true, trace⟩, freeBlock (s - k)]
  else [⟨s, true, trace⟩]

theorem takeBlk_linked {s k : Nat} {trace : Bool} (file line : Word)
    (linked : Linked m prev a (freeBlock s :: bs)) (smallPrev : prev < 2 ^ 31) (small : a + s < 2 ^ 31)
    (room : memBlkHeadSize trace ≤ k) (fits : k ≤ s) (aligned : k % 4 = 0) :
    Linked (takeBlk m a k trace file line) prev a (taken s k trace ++ bs) ∧
      Frame m (takeBlk m a k trace file line) a (a + s + 4) := by
  have block : BlkAt m prev a (freeBlock s) := (linked_cons.mp linked).1
  have alignedBlock : s % 4 = 0 := block.aligned
  have head := head_ge ⟨k, true, trace⟩
  rw [Blk.head] at head
  dsimp only at head
  have next : memBlkNext m a = a + s := memBlkNext_eq block small
  have linkSize : blkLinkSize m a = s := blkLinkSize_eq block small
  have one : MEM_BLK_MIN = 1 := rfl
  -- the memory once the block has its final size
  have sized : ∃ m' size rest, takeBlk m a k trace file line =
        (if trace then memBlkSetTraced (memBlkSetUsed m' a) a file line else memBlkSetUsed m' a) ∧
      taken s k trace ++ bs = ⟨size, true, trace⟩ :: rest ∧ Linked m' prev a (freeBlock size :: rest) ∧
      memBlkHeadSize trace ≤ size ∧ size ≤ s ∧ Frame m m' a (a + s + 4) := by
    by_cases cut : k + memBlkHeadSize trace + MEM_BLK_MIN ≤ s
    · have split := splitBlk_linked linked small (by omega : 8 ≤ k) (by omega) aligned
      refine ⟨splitBlk m a (a + k), k, freeBlock (s - k) :: bs, ?_, ?_, split.1, room, fits, split.2⟩
      · have wrapped : wrap (k + memBlkHeadSize trace + MEM_BLK_MIN) = k + memBlkHeadSize trace + MEM_BLK_MIN :=
          Nat.mod_eq_of_lt (by omega)
        have place : wrap (a + k) = a + k := Nat.mod_eq_of_lt (by omega)
        have differs : a + s ≠ a + k := by omega
        unfold takeBlk
        dsimp only
        rw [linkSize, wrapped, if_pos cut, place, next, if_pos differs]
      · rw [taken, if_pos cut]
        rfl
    · refine ⟨m, s, bs, ?_, ?_, linked, by omega, Nat.le_refl s, fun _ _ => rfl⟩
      · have wrapped : wrap (k + memBlkHeadSize trace + MEM_BLK_MIN) = k + memBlkHeadSize trace + MEM_BLK_MIN :=
          Nat.mod_eq_of_lt (by omega)
        unfold takeBlk
        dsimp only
        rw [linkSize, wrapped, if_neg cut, if_neg (not_not_intro rfl)]
      · rw [taken, if_neg cut]
        rfl
  obtain ⟨m', size, rest, eq, list, linked', roomSize, fitsSize, same⟩ := sized
  rw [eq, list]
  have used := setUsed_linked linked' smallPrev
  have usedFrame : Frame m (memBlkSetUsed m' a) a (a + s + 4) :=
    same.trans fun x outside => store32_other _ _ (by omega)
  cases trace with
  | false => exact ⟨used, usedFrame⟩
  | true =>
      have sixteen : 16 ≤ size := roomSize
      refine ⟨setTraced_linked used (by omega) roomSize, usedFrame.trans fun x outside => ?_⟩
      change memBlkSetTraced (memBlkSetUsed m' a) a file line x = _
      unfold memBlkSetTraced
      rw [store32_other _ _ (by omega), store32_other _ _ (by omega), store32_other _ _ (by omega)]

end EspFirmware.Proof.Heap
