import EspFirmware.Proof.Heap.Live
import Mathlib.Data.List.Chain

/-!
A tidy heap: free blocks are joined, and every used block has an owner. Which requests it refuses, and what
is left of it when nothing is in use.
-/

namespace EspFirmware.Proof.Heap
open EspFirmware.Lib Memory EspFirmware.Heap EspFirmware.Spec

variable {n : Nat}

def Settled (bs : List Blk) : Prop := bs.IsChain fun a b => a.used = true ∨ b.used = true

theorem settled_append {as bs : List Blk} :
    Settled (as ++ bs) ↔ Settled as ∧ Settled bs ∧
      ∀ x ∈ as.getLast?, ∀ y ∈ bs.head?, x.used = true ∨ y.used = true :=
  List.isChain_append

theorem settled_cons {b : Blk} {bs : List Blk} :
    Settled (b :: bs) ↔ (∀ y ∈ bs.head?, b.used = true ∨ y.used = true) ∧ Settled bs :=
  List.isChain_cons

theorem settled_single (b : Blk) : Settled [b] := List.isChain_singleton b

theorem settled_taken {pre post : List Blk} {s : Nat} (k : Nat) (trace : Bool)
    (settled : Settled (pre ++ freeBlock s :: post)) : Settled (pre ++ (taken s k trace ++ post)) := by
  obtain ⟨before, here, -⟩ := settled_append.mp settled
  obtain ⟨next, after⟩ := settled_cons.mp here
  have usedNext : ∀ y ∈ post.head?, y.used = true := by
    intro y member
    rcases next y member with free | used
    · cases free
    · exact used
  rw [settled_append]
  unfold taken
  split
  · refine ⟨before, ?_, ?_⟩
    · rw [List.cons_append, List.cons_append, List.nil_append, settled_cons, settled_cons]
      exact ⟨fun _ _ => .inl rfl, fun y member => .inr (usedNext y member), after⟩
    · intro x _ y head
      cases head
      exact .inr rfl
  · refine ⟨before, ?_, ?_⟩
    · rw [List.cons_append, List.nil_append, settled_cons]
      exact ⟨fun _ _ => .inl rfl, after⟩
    · intro x _ y head
      cases head
      exact .inr rfl

theorem settled_joinRight (size : Nat) {post : List Blk} (settled : Settled post) : Settled (joinRight size post) := by
  cases post with
  | nil => exact settled_single _
  | cons b post =>
      obtain ⟨next, after⟩ := settled_cons.mp settled
      rw [joinRight]
      split
      · rename_i used
        rw [settled_cons]
        refine ⟨?_, settled⟩
        intro y head
        cases head
        exact .inr used
      · rename_i free
        rw [settled_cons]
        exact ⟨fun y member => .inr ((next y member).resolve_left free), after⟩

theorem settled_joined {pre post : List Blk} {b : Blk} (settled : Settled (pre ++ b :: post)) :
    Settled (joined pre b.size post) := by
  obtain ⟨before, here, -⟩ := settled_append.mp settled
  have after := (settled_cons.mp here).2
  rcases joined_cases pre b.size post with ⟨eq, used⟩ | ⟨pre', q, rfl, free, eq⟩
  · rw [eq, settled_append]
    exact ⟨before, settled_joinRight _ after, fun x last y _ => .inl (used x last)⟩
  · obtain ⟨before', -, used⟩ := settled_append.mp before
    rw [eq, settled_append]
    refine ⟨before', settled_joinRight _ after, ?_⟩
    intro x last y _
    rcases used x last q rfl with used | used
    · exact .inl used
    · rw [free] at used
      cases used

structure Tidy (regions : Fin n → HeapRegion) (h : HeapCaps n) (bs : Fin n → List Blk) (live : List Alloc) : Prop where
  place : ∀ num, SameRegion (regions num) (h.region num)
  settled : ∀ num, Settled (bs num)
  owned : ∀ num x, PtrIn h bs num x → x.1 ∈ live.map Alloc.ptr

section
variable {regions : Fin n → HeapRegion} {h h' : HeapCaps n} {bs : Fin n → List Blk} {live : List Alloc} {num : Fin n}
  {pre post : List Blk}

theorem SameRegion.trans {r r' r'' : HeapRegion} (first : SameRegion r r') (second : SameRegion r' r'') :
    SameRegion r r'' :=
  ⟨second.startAddr.trans first.startAddr, second.totalSize.trans first.totalSize, second.caps.trans first.caps⟩

theorem settled_update (settled : ∀ num, Settled (bs num)) {bs' : List Blk} (here : Settled bs') (i : Fin n) :
    Settled (Function.update bs num bs' i) := by
  by_cases same : i = num
  · rw [same, Function.update_self]
    exact here
  · rw [Function.update_of_ne same]
    exact settled i

theorem Tidy.taken {s k : Nat} {trace : Bool} (tidy : Tidy regions h bs live) (split : bs num = pre ++ freeBlock s :: post)
    (fits : k ≤ s) (moved : Moved h h' num (pre ++ (taken s k trace ++ post))) (size : Nat) (caps : Word) :
    Tidy regions h' (Function.update bs num (pre ++ (taken s k trace ++ post)))
      (⟨memStart (h.region num) + total pre + memBlkHeadSize trace, size, caps⟩ :: live) := by
  have here := tidy.settled num
  rw [split] at here
  refine ⟨fun i => (tidy.place i).trans (moved.sameRegion i),
    settled_update tidy.settled (settled_taken k trace here), ?_⟩
  intro i x member
  rw [List.map_cons]
  by_cases same : i = num
  · subst same
    rw [PtrIn, Function.update_self, moved.same.memStart, ptrsOf_append, ptrsOf_taken fits] at member
    have old : x ∈ ptrsOf (memStart (h.region i)) (bs i) ∨
        x.1 = memStart (h.region i) + total pre + memBlkHeadSize trace := by
      rw [split, ptrsOf_append, ptrsOf_free rfl, size_freeBlock, List.mem_append]
      rcases List.mem_append.mp member with early | late
      · exact .inl (.inl early)
      · rcases List.mem_cons.mp late with rfl | later
        · exact .inr rfl
        · exact .inl (.inr later)
    rcases old with old | new
    · exact List.mem_cons_of_mem _ (tidy.owned i x old)
    · rw [new]
      exact List.mem_cons_self
  · rw [PtrIn, Function.update_of_ne same, (moved.sameRegion i).memStart] at member
    exact List.mem_cons_of_mem _ (tidy.owned i x member)

theorem Tidy.joined {b : Blk} (tidy : Tidy regions h bs live) (inv : HeapInv h bs) (split : bs num = pre ++ b :: post)
    (used : b.used = true) (moved : Moved h h' num (joined pre b.size post)) :
    Tidy regions h' (Function.update bs num (joined pre b.size post))
      (live.filter fun a => a.ptr ≠ memStart (h.region num) + total pre + b.head) := by
  have here := tidy.settled num
  rw [split] at here
  refine ⟨fun i => (tidy.place i).trans (moved.sameRegion i), settled_update tidy.settled (settled_joined here), ?_⟩
  have blocks := (inv.regions num).linked.1
  rw [split, run_append] at blocks
  obtain ⟨before, block, after⟩ := blocks
  have room := block.room
  have head := head_ge b
  have bounds := (inv.regions num).bounds
  have end_ := (inv.regions num).end_
  rw [split, total_append, total_cons] at end_
  have kept {i : Fin n} {x : Nat × Nat} (member : PtrIn h bs i x)
      (other : x.1 ≠ memStart (h.region num) + total pre + b.head) :
      x.1 ∈ (live.filter fun a => a.ptr ≠ memStart (h.region num) + total pre + b.head).map Alloc.ptr := by
    obtain ⟨a, given, ptr⟩ := List.mem_map.mp (tidy.owned i x member)
    rw [← ptr] at other ⊢
    exact List.mem_map_of_mem (List.mem_filter.mpr ⟨given, decide_eq_true other⟩)
  intro i x member
  by_cases same : i = num
  · subst same
    rw [PtrIn, Function.update_self, moved.same.memStart, ptrsOf_joined] at member
    have old : PtrIn h bs i x := by
      rw [PtrIn, split, ptrsOf_append, ptrsOf_used used, List.mem_append]
      exact (List.mem_append.mp member).imp id (List.mem_cons_of_mem _)
    refine kept old ?_
    rcases List.mem_append.mp member with early | late
    · have := (ptrsOf_bounds before early).2
      omega
    · have := (ptrsOf_bounds after late).1
      omega
  · rw [PtrIn, Function.update_of_ne same, (moved.sameRegion i).memStart] at member
    refine kept member ?_
    have range := ptrIn_bounds inv member
    have mine := (inv.regions i).bounds
    have low := mine.low
    have high := mine.high
    have low' := bounds.low
    have high' := bounds.high
    rcases inv.apart i num same with first | second <;> omega

theorem Tidy.nothing (tidy : Tidy regions h bs live) (inv : HeapInv h bs) :
    Tidy regions h bs (live.filter fun a => a.ptr ≠ 0) := by
  refine ⟨tidy.place, tidy.settled, ?_⟩
  intro i x member
  obtain ⟨a, given, ptr⟩ := List.mem_map.mp (tidy.owned i x member)
  have range := ptrIn_bounds inv member
  rw [← ptr] at range ⊢
  exact List.mem_map_of_mem (List.mem_filter.mpr ⟨given, by simp; omega⟩)

theorem Tidy.written (tidy : Tidy regions h bs live) (m' : Memory) : Tidy regions { h with memory := m' } bs live :=
  ⟨tidy.place, tidy.settled, tidy.owned⟩

theorem Tidy.whole (tidy : Tidy regions h bs []) (inv : HeapInv h bs) (num : Fin n) :
    bs num = [freeBlock (memEnd (h.region num) - memStart (h.region num))] := by
  have region := inv.regions num
  have end_ := region.end_
  have order := region.bounds.order
  have settled := tidy.settled num
  have free : ∀ b ∈ bs num, b.used = false := by
    intro b member
    cases used : b.used with
    | false => rfl
    | true =>
        obtain ⟨pre, post, split⟩ := List.append_of_mem member
        have owned := tidy.owned num (memStart (h.region num) + total pre + b.head, b.size - b.head) (by
          rw [PtrIn, split, ptrsOf_append, ptrsOf_used used]
          exact List.mem_append_right _ List.mem_cons_self)
        cases owned
  have run := region.linked.1
  cases blocks : bs num with
  | nil =>
      rw [blocks, total_nil] at end_
      omega
  | cons b rest =>
      rw [blocks] at end_ free settled run
      have unused := free b List.mem_cons_self
      cases rest with
      | nil =>
          rw [total_cons, total_nil] at end_
          rw [free_eq run.1 unused]
          congr 2
          omega
      | cons c rest =>
          have unused' := free c (List.mem_cons_of_mem _ List.mem_cons_self)
          rcases (settled_cons.mp settled).1 c rfl with used | used
          · rw [unused] at used
            cases used
          · rw [unused'] at used
            cases used

end

end EspFirmware.Proof.Heap
