import EspFirmware.Proof.Nvs.PageOps

/-!
What loading does to a log, as a function on segments.
-/

namespace EspFirmware.Proof.Nvs
open EspFirmware.Nvs EspFirmware.Spec EspFirmware.Lib Prog

variable {env : Env}

theorem settled_append (a b : List Seg) : settled (a ++ b) = settled a ++ settled b := List.flatMap_append

theorem settled_cons (seg : Seg) (segs : List Seg) : settled (seg :: segs) = settle seg ++ settled segs := rfl

theorem settle_whole {seg : Seg} (whole : seg.whole = true) : settle seg = [seg] := by
  cases seg with
  | gone => rfl
  | item r => rfl
  | torn head len => exact absurd whole Bool.false_ne_true

theorem settled_whole {segs : List Seg} (whole : Whole segs) : settled segs = segs := by
  induction segs with
  | nil => rfl
  | cons seg segs ih =>
      rw [settled_cons, settle_whole (whole seg List.mem_cons_self),
        ih fun seg member => whole seg (List.mem_cons_of_mem _ member)]
      rfl

theorem whole_settled (segs : List Seg) : Whole (settled segs) := by
  intro seg member
  obtain ⟨x, -, inside⟩ := List.mem_flatMap.mp member
  cases x with
  | gone =>
      rw [List.mem_singleton.mp inside]
      rfl
  | item r =>
      rw [List.mem_singleton.mp inside]
      rfl
  | torn head len =>
      rw [List.eq_of_mem_replicate inside]
      rfl

theorem whole_settleTail (tail : Tail) : Whole (settleTail tail) := by
  cases tail with
  | free => exact nofun
  | half => exact whole_gones 1
  | cut head len => exact whole_gones _

theorem settled_gones (count : Nat) : settled (gones count) = gones count := settled_whole (whole_gones count)

theorem settled_torn (a : List Seg) (head : Item) (len : Nat) (b : List Seg) :
    settled (a ++ .torn head len :: b) = settled (a ++ gones (len + 1) ++ b) := by
  rw [settled_append, settled_append, settled_append, settled_cons, settled_gones, List.append_assoc]
  rfl

@[simp] theorem records_gones (count : Nat) : records (gones count) = [] := by
  rw [records, located_gones]
  rfl

theorem hasHash_append (hash : BitVec 24) (a b : List Seg) :
    hasHash env hash (a ++ b) = (hasHash env hash a || hasHash env hash b) := by
  rw [hasHash, records_append, List.any_append, hasHash, hasHash]

theorem hasHash_gones (hash : BitVec 24) (count : Nat) : hasHash env hash (gones count) = false := by
  rw [hasHash, records_gones]
  rfl

theorem hasHash_item (hash : BitVec 24) (r : Record) (segs : List Seg) :
    hasHash env hash (.item r :: segs) = (env.itemHash r.head == hash || hasHash env hash segs) := by
  rw [hasHash, records_cons_item, List.any_cons, hasHash]

theorem lastByHash_gones (count : Nat) (segs : List Seg) :
    lastByHash env (gones count ++ segs) = gones count ++ lastByHash env segs := by
  induction count with
  | zero => rfl
  | succ count ih =>
      have front : lastByHash env (gones (count + 1) ++ segs) = .gone :: lastByHash env (gones count ++ segs) := rfl
      rw [front, ih]
      rfl

theorem lastByHash_item (r : Record) (segs : List Seg) : lastByHash env (.item r :: segs) =
    (if hasHash env (env.itemHash r.head) segs then gones (r.body.length + 1) else [.item r]) ++
      lastByHash env segs := rfl

theorem records_skip {seg : Seg} (other : seg.isItem = false) (segs : List Seg) :
    records (seg :: segs) = records segs := by
  cases seg with
  | gone => exact records_located 1 segs
  | item r => exact Bool.noConfusion other
  | torn head len => exact records_located (0 + (len + 1)) segs

theorem lastByHash_skip {seg : Seg} (other : seg.isItem = false) (segs : List Seg) :
    lastByHash env (seg :: segs) = seg :: lastByHash env segs := by
  cases seg with
  | gone => rfl
  | item r => exact Bool.noConfusion other
  | torn head len => rfl

theorem hasHash_skip {seg : Seg} (other : seg.isItem = false) (hash : BitVec 24) (segs : List Seg) :
    hasHash env hash (seg :: segs) = hasHash env hash segs := by
  rw [hasHash, records_skip other, hasHash]

theorem hasHash_lastByHash (hash : BitVec 24) (segs : List Seg) :
    hasHash env hash (lastByHash env segs) = hasHash env hash segs := by
  induction segs with
  | nil => rfl
  | cons seg segs ih =>
      cases isItem : Seg.isItem seg with
      | false => rw [lastByHash_skip isItem, hasHash_skip isItem, hasHash_skip isItem, ih]
      | true =>
          cases seg with
          | gone => exact absurd isItem (by decide)
          | torn head len => exact absurd isItem Bool.false_ne_true
          | item r =>
              rw [lastByHash_item, hasHash_append, ih, hasHash_item]
              by_cases later : hasHash env (env.itemHash r.head) segs = true
              · rw [if_pos later, hasHash_gones, Bool.false_or]
                by_cases same : env.itemHash r.head = hash
                · rw [← same, later, Bool.or_true]
                · rw [beq_eq_false_iff_ne.mpr same, Bool.false_or]
              · rw [if_neg later, hasHash_item]
                have none_ : hasHash env hash [] = false := rfl
                rw [none_, Bool.or_false]

theorem whole_lastByHash {segs : List Seg} (whole : Whole segs) : Whole (lastByHash env segs) := by
  induction segs with
  | nil => exact whole
  | cons seg segs ih =>
      have later := ih fun seg member => whole seg (List.mem_cons_of_mem _ member)
      cases seg with
      | gone =>
          intro x member
          rcases List.mem_cons.mp member with rfl | inside
          · rfl
          · exact later x inside
      | torn head len => exact absurd (whole _ List.mem_cons_self) Bool.false_ne_true
      | item r =>
          rw [lastByHash_item, Whole.append]
          refine ⟨?_, later⟩
          split
          · exact whole_gones _
          · intro x member
            rw [List.mem_singleton.mp member]
            rfl

theorem lastByHash_front (a b : List Seg) : lastByHash env (lastByHash env a ++ b) = lastByHash env (a ++ b) := by
  induction a with
  | nil => rfl
  | cons seg a ih =>
      cases isItem : Seg.isItem seg with
      | false =>
          rw [lastByHash_skip isItem, List.cons_append, List.cons_append, lastByHash_skip isItem, lastByHash_skip isItem, ih]
      | true =>
          cases seg with
          | gone => exact absurd isItem (by decide)
          | torn head len => exact absurd isItem Bool.false_ne_true
          | item r =>
              rw [lastByHash_item, List.append_assoc, List.cons_append, lastByHash_item, hasHash_append]
              by_cases later : hasHash env (env.itemHash r.head) a = true
              · rw [if_pos later, later, Bool.true_or, if_pos rfl, lastByHash_gones, ih]
              · rw [if_neg later, List.singleton_append, lastByHash_item, hasHash_append, hasHash_lastByHash, ih]

theorem lastByHash_duplicate (a : List Seg) (r : Record) {b : List Seg}
    (later : hasHash env (env.itemHash r.head) b = true) :
    lastByHash env (a ++ .item r :: b) = lastByHash env (a ++ gones (r.body.length + 1) ++ b) := by
  induction a with
  | nil => rw [List.nil_append, List.nil_append, lastByHash_item, if_pos later, lastByHash_gones]
  | cons seg a ih =>
      cases isItem : Seg.isItem seg with
      | false =>
          rw [List.cons_append, List.cons_append, List.cons_append, lastByHash_skip isItem, lastByHash_skip isItem, ih]
      | true =>
          cases seg with
          | gone => exact absurd isItem (by decide)
          | torn head len => exact absurd isItem Bool.false_ne_true
          | item x =>
              have same : hasHash env (env.itemHash x.head) (a ++ .item r :: b) =
                  hasHash env (env.itemHash x.head) (a ++ gones (r.body.length + 1) ++ b) := by
                rw [hasHash_append, hasHash_append, hasHash_append, hasHash_item, hasHash_gones, Bool.or_false]
                by_cases equal : env.itemHash r.head = env.itemHash x.head
                · rw [← equal, later, Bool.or_true]
                · rw [beq_eq_false_iff_ne.mpr equal, Bool.false_or]
              rw [List.cons_append, List.cons_append, List.cons_append, lastByHash_item, lastByHash_item, same, ih]

def DistinctHashes (env : Env) (segs : List Seg) : Prop :=
  (records segs).Pairwise fun a b => env.itemHash a.head ≠ env.itemHash b.head

theorem hasHash_false {hash : BitVec 24} {segs : List Seg} (none_ : hasHash env hash segs = false) :
    ∀ r ∈ records segs, env.itemHash r.head ≠ hash := by
  intro r member same
  rw [hasHash, List.any_eq_false] at none_
  exact none_ r member (by rw [same]; exact beq_self_eq_true _)

theorem distinct_lastByHash (segs : List Seg) : DistinctHashes env (lastByHash env segs) := by
  induction segs with
  | nil => exact List.Pairwise.nil
  | cons seg segs ih =>
      cases isItem : Seg.isItem seg with
      | false =>
          rw [lastByHash_skip isItem, DistinctHashes, records_skip isItem]
          exact ih
      | true =>
          cases seg with
          | gone => exact absurd isItem (by decide)
          | torn head len => exact absurd isItem Bool.false_ne_true
          | item r =>
              rw [lastByHash_item, DistinctHashes, records_append]
              by_cases later : hasHash env (env.itemHash r.head) segs = true
              · rw [if_pos later, records_gones]
                exact ih
              · rw [if_neg later]
                refine List.pairwise_append.mpr ⟨List.pairwise_singleton _ _, ih, ?_⟩
                intro x isR y member same
                have eq : x = r := List.mem_singleton.mp isR
                rw [eq] at same
                have none_ : hasHash env (env.itemHash r.head) (lastByHash env segs) = false := by
                  rw [hasHash_lastByHash]
                  exact Bool.eq_false_iff.mpr later
                exact hasHash_false none_ y member same.symm

theorem lastByHash_distinct {segs : List Seg} (distinct : DistinctHashes env segs) : lastByHash env segs = segs := by
  induction segs with
  | nil => rfl
  | cons seg segs ih =>
      cases isItem : Seg.isItem seg with
      | false =>
          rw [DistinctHashes, records_skip isItem] at distinct
          rw [lastByHash_skip isItem, ih distinct]
      | true =>
          cases seg with
          | gone => exact absurd isItem (by decide)
          | torn head len => exact absurd isItem Bool.false_ne_true
          | item r =>
              rw [DistinctHashes, records_cons_item, List.pairwise_cons] at distinct
              have none_ : hasHash env (env.itemHash r.head) segs = false := by
                rw [hasHash, List.any_eq_false]
                intro x member same
                exact distinct.1 x member (beq_iff_eq.mp same).symm
              rw [lastByHash_item, none_, ih distinct.2]
              rfl

theorem lastByHash_snoc_new {segs : List Seg} {r : Record} (distinct : DistinctHashes env segs)
    (new : hasHash env (env.itemHash r.head) segs = false) : lastByHash env (segs ++ [.item r]) = segs ++ [.item r] := by
  apply lastByHash_distinct
  rw [DistinctHashes, records_append]
  refine List.pairwise_append.mpr ⟨distinct, List.pairwise_singleton _ _, ?_⟩
  intro x member y isR
  have eq : y = r := List.mem_singleton.mp isR
  rw [eq]
  exact hasHash_false new x member

theorem lastByHash_snoc_old {a b : List Seg} {x r : Record} (distinct : DistinctHashes env (a ++ .item x :: b))
    (same : env.itemHash x.head = env.itemHash r.head) :
    lastByHash env (a ++ .item x :: b ++ [.item r]) = a ++ gones (x.body.length + 1) ++ b ++ [.item r] := by
  have later : hasHash env (env.itemHash x.head) (b ++ [.item r]) = true := by
    rw [hasHash_append, hasHash_item, same, beq_self_eq_true, Bool.true_or, Bool.or_true]
  rw [DistinctHashes, records_append, records_cons_item, List.pairwise_append, List.pairwise_cons] at distinct
  obtain ⟨first, ⟨apart, second⟩, between⟩ := distinct
  rw [List.append_assoc, List.cons_append, lastByHash_duplicate a x later, ← List.append_assoc]
  apply lastByHash_snoc_new
  · rw [DistinctHashes, records_append, records_append, records_gones, List.append_nil]
    refine List.pairwise_append.mpr ⟨first, second, fun y inA z inB => ?_⟩
    exact between y inA z (List.mem_cons_of_mem _ inB)
  · rw [hasHash, records_append, records_append, records_gones, List.append_nil, List.any_eq_false]
    intro y member equal
    have equal := beq_iff_eq.mp equal
    rw [← same] at equal
    rcases List.mem_append.mp member with inA | inB
    · exact between y inA x List.mem_cons_self equal
    · exact apart y inB equal.symm

end EspFirmware.Proof.Nvs
