import EspFirmware.Proof.Heap.Free
import EspFirmware.Lib.Loop

/-!
All regions together, and the pointers their used blocks stand for.
-/

namespace EspFirmware.Proof.Heap
open EspFirmware.Lib Memory EspFirmware.Heap EspFirmware.Spec

variable {n : Nat}

def ptrsOf : Nat → List Blk → List (Nat × Nat)
  | _, [] => []
  | a, b :: bs => (if b.used then [(a + b.head, b.size - b.head)] else []) ++ ptrsOf (a + b.size) bs

theorem ptrsOf_cons (a : Nat) (b : Blk) (bs : List Blk) :
    ptrsOf a (b :: bs) = (if b.used then [(a + b.head, b.size - b.head)] else []) ++ ptrsOf (a + b.size) bs := rfl

theorem ptrsOf_append (a : Nat) (as bs : List Blk) :
    ptrsOf a (as ++ bs) = ptrsOf a as ++ ptrsOf (a + total as) bs := by
  induction as generalizing a with
  | nil => rfl
  | cons b as ih => rw [List.cons_append, ptrsOf_cons, ih, ptrsOf_cons, total_cons, List.append_assoc, Nat.add_assoc]

theorem ptrsOf_free {b : Blk} (unused : b.used = false) (a : Nat) (bs : List Blk) :
    ptrsOf a (b :: bs) = ptrsOf (a + b.size) bs := by
  rw [ptrsOf_cons, unused, if_neg (by simp), List.nil_append]

theorem ptrsOf_used {b : Blk} (used : b.used = true) (a : Nat) (bs : List Blk) :
    ptrsOf a (b :: bs) = (a + b.head, b.size - b.head) :: ptrsOf (a + b.size) bs := by
  rw [ptrsOf_cons, used, if_pos rfl]
  rfl

theorem ptrsOf_bounds {m : Memory} {prev a : Nat} {bs : List Blk} (run : Run m prev a bs) {x : Nat × Nat}
    (member : x ∈ ptrsOf a bs) : a + 8 ≤ x.1 ∧ x.1 + x.2 ≤ a + total bs := by
  induction bs generalizing prev a with
  | nil => exact absurd member List.not_mem_nil
  | cons b bs ih =>
      have room := run.1.room
      have head := head_ge b
      rw [total_cons]
      rcases List.mem_append.mp member with here | later
      · cases used : b.used with
        | true =>
            rw [used, if_pos rfl, List.mem_singleton] at here
            subst here
            dsimp only
            omega
        | false =>
            rw [used, if_neg (by simp)] at here
            exact absurd here List.not_mem_nil
      · have := ih run.2 later
        omega

theorem ptrsOf_split {a : Nat} {bs : List Blk} {x : Nat × Nat} (member : x ∈ ptrsOf a bs) :
    ∃ pre b post, bs = pre ++ b :: post ∧ b.used = true ∧ x = (a + total pre + b.head, b.size - b.head) := by
  induction bs generalizing a with
  | nil => exact absurd member List.not_mem_nil
  | cons b bs ih =>
      rcases List.mem_append.mp member with here | later
      · cases used : b.used with
        | true =>
            rw [used, if_pos rfl, List.mem_singleton] at here
            exact ⟨[], b, bs, rfl, used, here⟩
        | false =>
            rw [used, if_neg (by simp)] at here
            exact absurd here List.not_mem_nil
      · obtain ⟨pre, c, post, rfl, used, place⟩ := ih later
        refine ⟨b :: pre, c, post, rfl, used, ?_⟩
        rw [place, total_cons, Nat.add_assoc a]

theorem ptrsOf_joined (a : Nat) (pre : List Blk) (size : Nat) (post : List Blk) :
    ptrsOf a (joined pre size post) = ptrsOf a pre ++ ptrsOf (a + total pre + size) post := by
  have right (c s : Nat) : ptrsOf c (joinRight s post) = ptrsOf (c + s) post := by
    cases post with
    | nil => rfl
    | cons b post =>
        rw [joinRight]
        cases used : b.used with
        | true =>
            rw [if_pos rfl]
            exact ptrsOf_free rfl c _
        | false =>
            rw [if_neg (by simp), ptrsOf_free rfl, ptrsOf_free used, size_freeBlock, Nat.add_assoc]
  rcases joined_cases pre size post with ⟨eq, -⟩ | ⟨pre', q, rfl, unused, eq⟩
  · rw [eq, ptrsOf_append, right]
  · have none_ : ptrsOf (a + total pre' + q.size) [] = [] := rfl
    rw [eq, ptrsOf_append, right, ptrsOf_append, ptrsOf_free unused, none_, List.append_nil, total_append, total_cons,
      total_nil, Nat.add_zero]
    congr 2
    omega

theorem ptrsOf_taken {s k : Nat} {trace : Bool} (fits : k ≤ s) (a : Nat) (post : List Blk) :
    ptrsOf a (taken s k trace ++ post) =
      (a + memBlkHeadSize trace, takenSize s k trace - memBlkHeadSize trace) :: ptrsOf (a + s) post := by
  unfold taken takenSize
  split
  · have place : a + k + (s - k) = a + s := by omega
    change ptrsOf a (⟨k, true, trace⟩ :: freeBlock (s - k) :: post) = _
    rw [ptrsOf_used rfl, ptrsOf_free rfl, size_freeBlock]
    dsimp only
    rw [place]
    rfl
  · change ptrsOf a (⟨s, true, trace⟩ :: post) = _
    rw [ptrsOf_used rfl]
    rfl

def RegionsApart (h : HeapCaps n) : Prop :=
  ∀ i j, i ≠ j → (h.region i).startAddr + (h.region i).totalSize ≤ (h.region j).startAddr ∨
    (h.region j).startAddr + (h.region j).totalSize ≤ (h.region i).startAddr

structure HeapInv (h : HeapCaps n) (bs : Fin n → List Blk) : Prop where
  regions : ∀ num, RegionInv h.memory (h.region num) (bs num)
  apart : RegionsApart h

theorem regionInv_congr {m m' : Memory} {r : HeapRegion} {bs : List Blk} (inv : RegionInv m r bs)
    (same : ∀ x, InHeader (memStart r) bs x ∨ (memEnd r ≤ x ∧ x < memEnd r + 8) → m' x = m x) :
    RegionInv m' r bs := by
  refine ⟨inv.bounds, linked_congr (fun x inside => same x ?_) inv.linked, inv.end_, inv.freeBytes, inv.freeBlk⟩
  rw [inv.end_] at inside
  exact inside

theorem header_in_region {m : Memory} {r : HeapRegion} {bs : List Blk} (inv : RegionInv m r bs) {x : Nat}
    (inside : InHeader (memStart r) bs x ∨ (memEnd r ≤ x ∧ x < memEnd r + 8)) :
    r.startAddr ≤ x ∧ memStart r ≤ x ∧ x < memEnd r + 8 ∧ x < r.startAddr + r.totalSize := by
  have low := inv.bounds.low
  have high := inv.bounds.high
  have order := inv.bounds.order
  have end_ := inv.end_
  rcases inside with header | last
  · have := inHeader_bounds inv.linked.1 header
    omega
  · omega

theorem HeapInv.moved {h h' : HeapCaps n} {bs : Fin n → List Blk} {num : Fin n} {bs' : List Blk}
    (inv : HeapInv h bs) (moved : Moved h h' num bs') : HeapInv h' (Function.update bs num bs') := by
  constructor
  · intro i
    by_cases here : i = num
    · rw [here, Function.update_self]
      exact moved.inv
    · rw [Function.update_of_ne here, moved.others i here]
      refine regionInv_congr (inv.regions i) fun x inside => moved.frame x ?_
      have mine := header_in_region (inv.regions i) inside
      have bounds := (inv.regions num).bounds
      have low := bounds.low
      have high := bounds.high
      rcases inv.apart i num here with before | after
      · left
        omega
      · right
        omega
  · intro i j different
    have same (k : Fin n) : SameRegion (h.region k) (h'.region k) := by
      by_cases here : k = num
      · rw [here]
        exact moved.same
      · rw [moved.others k here]
        exact ⟨rfl, rfl, rfl⟩
    rw [(same i).startAddr, (same i).totalSize, (same j).startAddr, (same j).totalSize]
    exact inv.apart i j different

theorem Moved.sameRegion {h h' : HeapCaps n} {num : Fin n} {bs' : List Blk} (moved : Moved h h' num bs')
    (i : Fin n) : SameRegion (h.region i) (h'.region i) := by
  by_cases here : i = num
  · rw [here]
    exact moved.same
  · rw [moved.others i here]
    exact ⟨rfl, rfl, rfl⟩

def PtrIn (h : HeapCaps n) (bs : Fin n → List Blk) (num : Fin n) (x : Nat × Nat) : Prop :=
  x ∈ ptrsOf (memStart (h.region num)) (bs num)

structure LiveInv (h : HeapCaps n) (bs : Fin n → List Blk) (live : List Alloc) : Prop where
  given : ∀ a ∈ live, ∃ num room, PtrIn h bs num (a.ptr, room) ∧ a.size ≤ room ∧
    (h.region num).caps &&& a.caps = a.caps
  distinct : (live.map Alloc.ptr).Nodup

theorem ptrIn_bounds {h : HeapCaps n} {bs : Fin n → List Blk} (inv : HeapInv h bs) {num : Fin n} {x : Nat × Nat}
    (member : PtrIn h bs num x) :
    memStart (h.region num) + 8 ≤ x.1 ∧ x.1 + x.2 ≤ memEnd (h.region num) := by
  have bounds := ptrsOf_bounds (inv.regions num).linked.1 member
  rw [(inv.regions num).end_] at bounds
  exact bounds

theorem getBlkRegion_eq {h : HeapCaps n} {bs : Fin n → List Blk} (inv : HeapInv h bs) {num : Fin n} {x : Nat × Nat}
    (member : PtrIn h bs num x) : getBlkRegion h x.1 = some num := by
  have range := ptrIn_bounds inv member
  have inside (i : Fin n) : ((h.region i).startAddr < x.1 ∧
      x.1 < wrap ((h.region i).startAddr + (h.region i).totalSize)) ↔ i = num := by
    have bounds := (inv.regions num).bounds
    have low := bounds.low
    have high := bounds.high
    have limit := (inv.regions i).bounds.limit
    have wrapped : wrap ((h.region i).startAddr + (h.region i).totalSize) =
        (h.region i).startAddr + (h.region i).totalSize := Nat.mod_eq_of_lt (by omega)
    rw [wrapped]
    constructor
    · intro within
      by_contra other
      rcases inv.apart i num other with before | after <;> omega
    · intro here
      rw [here]
      omega
  unfold getBlkRegion
  have predicate : (fun i => decide ((h.region i).startAddr < x.1 ∧
      x.1 < wrap ((h.region i).startAddr + (h.region i).totalSize))) = fun i => decide (i = num) := by
    funext i
    rw [decide_eq_decide]
    exact inside i
  rw [predicate, find?_finRange_eq_some]
  refine ⟨by simp, fun j less => ?_⟩
  exact decide_eq_false (by rintro rfl; exact lt_irrefl _ less)

end EspFirmware.Proof.Heap
