import EspFirmware.Spec.Heap

/-!
The blocks of a region as a list of sizes and flags, and what a memory has to hold for them.
-/

namespace EspFirmware.Proof.Heap
open EspFirmware.Lib Memory EspFirmware.Heap EspFirmware.Spec

structure Blk where
  size : Nat
  used : Bool
  traced : Bool

def Blk.head (b : Blk) : Nat := memBlkHeadSize b.traced

abbrev freeBlock (size : Nat) : Blk := ⟨size, false, false⟩

@[simp] theorem size_freeBlock (size : Nat) : (freeBlock size).size = size := rfl

def total (bs : List Blk) : Nat := (bs.map Blk.size).sum

def freeTotal (bs : List Blk) : Nat := ((bs.filter fun b => !b.used).map Blk.size).sum

@[simp] theorem total_nil : total [] = 0 := rfl

@[simp] theorem total_cons (b : Blk) (bs : List Blk) : total (b :: bs) = b.size + total bs := by
  rw [total, List.map_cons, List.sum_cons, total]

@[simp] theorem total_append (as bs : List Blk) : total (as ++ bs) = total as + total bs := by
  rw [total, List.map_append, List.sum_append, total, total]

@[simp] theorem freeTotal_append (as bs : List Blk) : freeTotal (as ++ bs) = freeTotal as + freeTotal bs := by
  rw [freeTotal, List.filter_append, List.map_append, List.sum_append, freeTotal, freeTotal]

theorem freeTotal_used {b : Blk} (used : b.used = true) (bs : List Blk) : freeTotal (b :: bs) = freeTotal bs := by
  simp [freeTotal, used]

theorem freeTotal_free {b : Blk} (free : b.used = false) (bs : List Blk) :
    freeTotal (b :: bs) = b.size + freeTotal bs := by
  simp [freeTotal, free]

theorem freeTotal_le (bs : List Blk) : freeTotal bs ≤ total bs := by
  induction bs with
  | nil => exact Nat.le_refl 0
  | cons b bs ih =>
      rw [total_cons]
      cases used : b.used with
      | true => rw [freeTotal_used used]; omega
      | false => rw [freeTotal_free used]; omega

def lastAddr : Nat → Nat → List Blk → Nat
  | prev, _, [] => prev
  | _, a, b :: bs => lastAddr a (a + b.size) bs

theorem lastAddr_cons (prev a : Nat) (b : Blk) (bs : List Blk) :
    lastAddr prev a (b :: bs) = lastAddr a (a + b.size) bs := rfl

theorem lastAddr_snoc (prev a : Nat) (bs : List Blk) (b : Blk) :
    lastAddr prev a (bs ++ [b]) = a + total bs := by
  induction bs generalizing prev a with
  | nil => rfl
  | cons c bs ih => rw [List.cons_append, lastAddr_cons, ih, total_cons, Nat.add_assoc]

def firstFree : Nat → List Blk → Nat
  | a, [] => a
  | a, b :: bs => if b.used then firstFree (a + b.size) bs else a

theorem firstFree_ge (a : Nat) (bs : List Blk) : a ≤ firstFree a bs := by
  induction bs generalizing a with
  | nil => exact Nat.le_refl a
  | cons b bs ih =>
      rw [firstFree]
      split
      · have := ih (a + b.size)
        omega
      · exact Nat.le_refl a

structure BlkAt (m : Memory) (prev a : Nat) (b : Blk) : Prop where
  prev : load32 m a = link prev b.used
  next : load32 m (a + 4) = link (a + b.size) b.traced
  line : b.traced = true → load32 m (a + 12) &&& topBit = topBit
  room : b.head ≤ b.size
  aligned : b.size % 4 = 0
  free : b.used = false → b.traced = false

def Run (m : Memory) : Nat → Nat → List Blk → Prop
  | _, _, [] => True
  | prev, a, b :: bs => BlkAt m prev a b ∧ Run m a (a + b.size) bs

def EndAt (m : Memory) (prev a : Nat) : Prop := load32 m a = link prev false ∧ load32 m (a + 4) = link 0 false

def Linked (m : Memory) (prev a : Nat) (bs : List Blk) : Prop :=
  Run m prev a bs ∧ EndAt m (lastAddr prev a bs) (a + total bs)

theorem run_append {m : Memory} {prev a : Nat} {as bs : List Blk} :
    Run m prev a (as ++ bs) ↔ Run m prev a as ∧ Run m (lastAddr prev a as) (a + total as) bs := by
  induction as generalizing prev a with
  | nil => simp [Run, lastAddr]
  | cons c as ih =>
      simp only [List.cons_append, Run, ih, lastAddr_cons, total_cons, Nat.add_assoc, and_assoc]

theorem lastAddr_append (prev a : Nat) (as bs : List Blk) :
    lastAddr prev a (as ++ bs) = lastAddr (lastAddr prev a as) (a + total as) bs := by
  induction as generalizing prev a with
  | nil => rfl
  | cons c as ih => rw [List.cons_append, lastAddr_cons, ih, lastAddr_cons, total_cons, Nat.add_assoc]

theorem linked_append {m : Memory} {prev a : Nat} {as bs : List Blk} :
    Linked m prev a (as ++ bs) ↔ Run m prev a as ∧ Linked m (lastAddr prev a as) (a + total as) bs := by
  rw [Linked, run_append, Linked, lastAddr_append, total_append, Nat.add_assoc, and_assoc]

theorem linked_cons {m : Memory} {prev a : Nat} {b : Blk} {bs : List Blk} :
    Linked m prev a (b :: bs) ↔ BlkAt m prev a b ∧ Linked m a (a + b.size) bs := by
  rw [Linked, Run, Linked, lastAddr_cons, total_cons, Nat.add_assoc, and_assoc]

def InHeader : Nat → List Blk → Nat → Prop
  | _, [], _ => False
  | a, b :: bs, x => (a ≤ x ∧ x < a + b.head) ∨ InHeader (a + b.size) bs x

theorem head_ge (b : Blk) : 8 ≤ b.head ∧ b.head ≤ 16 := by
  unfold Blk.head memBlkHeadSize
  split
  · exact ⟨by decide, by decide⟩
  · exact ⟨by decide, by decide⟩

theorem head_traced {b : Blk} (traced : b.traced = true) : b.head = 16 := by
  rw [Blk.head, traced]
  rfl

theorem head_untraced {b : Blk} (traced : b.traced = false) : b.head = 8 := by
  rw [Blk.head, traced]
  rfl

theorem blkAt_congr {m m' : Memory} {prev a : Nat} {b : Blk}
    (same : ∀ x, a ≤ x → x < a + b.head → m' x = m x) (at_ : BlkAt m prev a b) : BlkAt m' prev a b where
  prev := by
    have head := head_ge b
    rw [load32_congr fun x low high => same x low (by omega), at_.prev]
  next := by
    have head := head_ge b
    rw [load32_congr fun x low high => same x (by omega) (by omega), at_.next]
  line traced := by
    have head := head_traced traced
    rw [load32_congr fun x low high => same x (by omega) (by omega), at_.line traced]
  room := at_.room
  aligned := at_.aligned
  free := at_.free

theorem run_congr {m m' : Memory} {prev a : Nat} {bs : List Blk} (same : ∀ x, InHeader a bs x → m' x = m x)
    (run : Run m prev a bs) : Run m' prev a bs := by
  induction bs generalizing prev a with
  | nil => exact trivial
  | cons b bs ih =>
      refine ⟨blkAt_congr (fun x low high => same x (Or.inl ⟨low, high⟩)) run.1, ih ?_ run.2⟩
      exact fun x inside => same x (Or.inr inside)

theorem endAt_congr {m m' : Memory} {prev a : Nat} (same : ∀ x, a ≤ x → x < a + 8 → m' x = m x)
    (at_ : EndAt m prev a) : EndAt m' prev a := by
  refine ⟨?_, ?_⟩
  · rw [load32_congr fun x low high => same x low (by omega), at_.1]
  · rw [load32_congr fun x low high => same x (by omega) (by omega), at_.2]

theorem linked_congr {m m' : Memory} {prev a : Nat} {bs : List Blk}
    (same : ∀ x, InHeader a bs x ∨ (a + total bs ≤ x ∧ x < a + total bs + 8) → m' x = m x)
    (linked : Linked m prev a bs) : Linked m' prev a bs :=
  ⟨run_congr (fun x inside => same x (Or.inl inside)) linked.1,
    endAt_congr (fun x low high => same x (Or.inr ⟨low, high⟩)) linked.2⟩

theorem inHeader_bounds {m : Memory} {prev a : Nat} {bs : List Blk} (run : Run m prev a bs) {x : Nat}
    (inside : InHeader a bs x) : a ≤ x ∧ x < a + total bs := by
  induction bs generalizing prev a with
  | nil => exact inside.elim
  | cons b bs ih =>
      have room := run.1.room
      rw [total_cons]
      rcases inside with here | later
      · omega
      · have := ih run.2 later
        omega

section
variable {m : Memory} {prev a : Nat} {b : Blk}

theorem memBlkPrev_eq (at_ : BlkAt m prev a b) (small : prev < 2 ^ 31) : memBlkPrev m a = prev := by
  rw [memBlkPrev, at_.prev, MEM_BLK_TAG, link_and_not_top small, toNat_link small]

theorem memBlkNext_eq (at_ : BlkAt m prev a b) (small : a + b.size < 2 ^ 31) : memBlkNext m a = a + b.size := by
  rw [memBlkNext, at_.next, MEM_BLK_TRACE, link_and_not_top small, toNat_link small]

theorem flag_ne_zero (flag : Bool) : decide ((if flag then topBit else 0) ≠ 0) = flag := by
  cases flag <;> decide

theorem memBlkIsUsed_eq (at_ : BlkAt m prev a b) (small : prev < 2 ^ 31) : memBlkIsUsed m a = b.used := by
  rw [memBlkIsUsed, at_.prev, MEM_BLK_TAG, link_and_top small]
  exact flag_ne_zero b.used

theorem memBlkIsTraced_eq (at_ : BlkAt m prev a b) (small : a + b.size < 2 ^ 31) :
    memBlkIsTraced m a = b.traced := by
  rw [memBlkIsTraced, at_.next, MEM_BLK_TRACE, link_and_top small]
  exact flag_ne_zero b.traced

theorem blkLinkSize_eq (at_ : BlkAt m prev a b) (small : a + b.size < 2 ^ 31) : blkLinkSize m a = b.size := by
  rw [blkLinkSize, memBlkNext_eq at_ small, minus]
  omega

theorem memBlkIsEnd_eq (at_ : BlkAt m prev a b) (small : a + b.size < 2 ^ 31) : memBlkIsEnd m a = false := by
  have room := at_.room
  have head := head_ge b
  rw [memBlkIsEnd, memBlkNext_eq at_ small]
  exact decide_eq_false (by omega)

theorem endAt_next (at_ : EndAt m prev a) : memBlkNext m a = 0 := by
  rw [memBlkNext, at_.2, MEM_BLK_TRACE, link_and_not_top (by decide), toNat_link (by decide)]

theorem endAt_isEnd (at_ : EndAt m prev a) : memBlkIsEnd m a = true := by
  rw [memBlkIsEnd, endAt_next at_]
  rfl

end

end EspFirmware.Proof.Heap
