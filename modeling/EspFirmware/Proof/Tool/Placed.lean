import EspFirmware.Proof.Tool.Csv

/-!
Where the entries of a generated table are: one after the other, above the partition table, and in the flash.
-/

namespace EspFirmware.Proof.Tool
open EspFirmware.Tool EspFirmware.Spec EspFirmware.Lib
open PartitionDefinition (alignment)

def Assigned (line p : PartitionDefinition) : Prop :=
  p.type = line.type ∧
    (line.type = some APP_TYPE → line.offset ≠ p.offset → (PartitionTable.span p).1 % 0x10000 = 0)

theorem padded_boundary {lastEnd : Int} :
    (if lastEnd % 0x10000 ≠ 0 then lastEnd + (0x10000 - lastEnd % 0x10000) else lastEnd) % 0x10000 = 0 := by
  split <;> omega

theorem place_assigned {cfg : Settings} {lastEnd end_ : Int} {line p : PartitionDefinition}
    (placed : PartitionTable.place cfg lastEnd line = .ok (p, end_)) : Assigned line p := by
  unfold PartitionTable.place at placed
  cases size : line.size with
  | none =>
      rw [size] at placed
      cases placed
  | some size =>
      simp only [size, Except.ok.injEq, Prod.mk.injEq] at placed
      obtain ⟨rfl, -⟩ := placed
      refine ⟨rfl, ?_⟩
      intro app differs
      simp only [PartitionTable.span, Option.getD_some]
      simp only [app, if_true] at differs ⊢
      cases given : line.offset with
      | none => exact padded_boundary
      | some offset =>
          rw [given] at differs
          by_cases moved : cfg.offsetPartTable ≠ 0 ∧ offset < lastEnd
          · simp only [if_pos moved]
            exact padded_boundary
          · simp only [if_neg moved] at differs
            exact absurd rfl differs

theorem fixUp_assigned {cfg : Settings} {lastEnd : Int} {lines table : PartitionTable}
    (fixed : PartitionTable.fixUp cfg lastEnd lines = .ok table) : List.Forall₂ Assigned lines table := by
  induction lines generalizing lastEnd table with
  | nil =>
      cases fixed
      exact .nil
  | cons line rest ih =>
      unfold PartitionTable.fixUp at fixed
      obtain ⟨⟨p, end_⟩, placed, fixed⟩ := bind_eq_ok.mp fixed
      obtain ⟨more, others, fixed⟩ := bind_eq_ok.mp fixed
      cases fixed
      exact .cons (place_assigned placed) (ih others)

theorem inPlace_apart {lastEnd : Int} {spans : List (Int × Int)} (natural : ∀ x ∈ spans, 0 ≤ x.2)
    (placed : InPlace lastEnd spans) : spans.Pairwise fun x y => x.1 + x.2 ≤ y.1 := by
  induction spans generalizing lastEnd with
  | nil => exact .nil
  | cons span spans ih =>
      have others : ∀ x ∈ spans, 0 ≤ x.2 := fun x member => natural x (List.mem_cons_of_mem _ member)
      exact .cons (inPlace_above others placed.2) (ih others placed.2)

def Apart (x y : Int × Int) : Prop := x.1 + x.2 ≤ y.1 ∨ y.1 + y.2 ≤ x.1

instance : Std.Symm Apart := ⟨fun _ _ => Or.symm⟩

theorem apart_of_perm {spans sorted : List (Int × Int)} (perm : sorted.Perm spans)
    (apart : sorted.Pairwise fun x y => x.1 + x.2 ≤ y.1) : spans.Pairwise Apart := by
  refine (perm.pairwise_iff fun {x y} => Or.symm).mp ?_
  exact apart.imp Or.inl

section
variable {α : Type} {le : α → α → Bool} (trans : ∀ a b c, le a b = true → le b c = true → le a c = true)
  (total : ∀ a b, (le a b || le b a) = true)
include trans total

theorem filter_mergeSort {xs : List α} (p : α → Bool) (sorted : (xs.filter p).Pairwise fun a b => le a b = true) :
    (xs.mergeSort le).filter p = xs.filter p := by
  have kept : (xs.filter p).Sublist ((xs.mergeSort le).filter p) := by
    have within := (List.sublist_mergeSort trans total sorted List.filter_sublist).filter p
    simpa only [List.filter_filter, Bool.and_self] using within
  have perm := (List.mergeSort_perm xs le).filter p
  exact (kept.eq_of_length perm.length_eq.symm).symm

end

theorem highest_first {spans rest : List (Int × Int)} {first : Int × Int}
    (sorted : spans.mergeSort (fun a b => decide (b.1 ≤ a.1)) = first :: rest) :
    first ∈ spans ∧ (∀ x ∈ spans, x.1 ≤ first.1) ∧
      ∀ x ∈ spans, x.1 = first.1 → x = first ∨ [first, x].Sublist spans := by
  have trans (a b c : Int × Int) (before : decide (b.1 ≤ a.1) = true) (after : decide (c.1 ≤ b.1) = true) :
      decide (c.1 ≤ a.1) = true := by
    rw [decide_eq_true_iff] at before after ⊢
    omega
  have total (a b : Int × Int) : (decide (b.1 ≤ a.1) || decide (a.1 ≤ b.1)) = true := by
    rw [Bool.or_eq_true, decide_eq_true_iff, decide_eq_true_iff]
    omega
  have perm := List.mergeSort_perm spans fun a b => decide (b.1 ≤ a.1)
  rw [sorted] at perm
  have descending := List.pairwise_mergeSort trans total spans
  rw [sorted, List.pairwise_cons] at descending
  refine ⟨perm.subset List.mem_cons_self, ?_, ?_⟩
  · intro x member
    cases perm.symm.subset member with
    | head => exact Int.le_refl _
    | tail _ later => exact of_decide_eq_true (descending.1 x later)
  · intro x member same
    -- The entries of the highest offset are in the order of the table.
    have highest : (spans.filter fun y => decide (y.1 = first.1)).Pairwise fun a b => decide (b.1 ≤ a.1) = true := by
      apply List.pairwise_of_forall_mem_list
      intro a inside b inside'
      have atA := of_decide_eq_true (List.mem_filter.mp inside).2
      have atB := of_decide_eq_true (List.mem_filter.mp inside').2
      rw [decide_eq_true_iff]
      omega
    have order := filter_mergeSort trans total (fun y => decide (y.1 = first.1)) highest
    rw [sorted, List.filter_cons_of_pos (by simp)] at order
    have here : x ∈ spans.filter fun y => decide (y.1 = first.1) :=
      List.mem_filter.mpr ⟨member, decide_eq_true same⟩
    rw [← order] at here
    cases here with
    | head => exact Or.inl rfl
    | tail _ later =>
        have pair : [first, x].Sublist (spans.filter fun y => decide (y.1 = first.1)) := by
          rw [← order]
          exact (List.singleton_sublist.mpr later).cons_cons first
        exact Or.inr (pair.trans List.filter_sublist)

section
variable {cfg : Settings} {table : PartitionTable} {limit : Int}

theorem packed_of_mem {records : List (List Nvs.Byte)} {p : PartitionDefinition}
    (each : List.Forall₂ (fun p r => PartitionDefinition.toBinary p = .ok r) table records) (member : p ∈ table) :
    ∃ r, p.toBinary = .ok r := by
  induction each with
  | nil => cases member
  | cons here _ ih =>
      cases member with
      | head => exact ⟨_, here⟩
      | tail _ member => exact ih member

theorem toBinary_natural {b : List Nvs.Byte} (packed : PartitionTable.toBinary cfg table = .ok b) : NaturalSizes table := by
  obtain ⟨records, filler, each, -⟩ := table_toBinary_ok packed
  intro p member size isSize
  obtain ⟨r, entry⟩ := packed_of_mem each member
  obtain ⟨-, -, -, word, -, -, -, packedSize, -⟩ := toBinary_ok entry
  rw [packedSize] at isSize
  cases isSize
  exact Int.natCast_nonneg _

theorem verify_aligned {p : PartitionDefinition} (verified : p.verify cfg = .ok ()) :
    ∀ type ∈ p.type, (PartitionTable.span p).1 % alignment type = 0 := by
  obtain ⟨type, subtype, offset, size, isType, isSubtype, isOffset, isSize⟩ := verify_fields verified
  intro type' same
  rw [isType] at same
  cases same
  simp only [PartitionTable.span, isOffset, Option.getD_some]
  by_contra unaligned
  simp only [PartitionDefinition.verify, isType, isSubtype, isOffset, ne_eq, unaligned, not_false_eq_true, if_true] at verified
  cases verified

variable (verified : PartitionTable.verify cfg table = .ok ()) (sizes : NaturalSizes table)
include verified sizes

theorem sorted_apart :
    ((table.map PartitionTable.span).mergeSort fun a b => a.1 ≤ b.1).Pairwise fun x y => x.1 + x.2 ≤ y.1 := by
  have places := checkPlaces_first (table_verify_ok verified).2
  refine inPlace_apart ?_ places
  intro x member
  exact spans_natural verified sizes x ((List.mergeSort_perm _ _).subset member)

theorem spans_apart : (table.map PartitionTable.span).Pairwise Apart :=
  apart_of_perm (List.mergeSort_perm _ _) (sorted_apart verified sizes)

theorem entries_disjoint : table.Pairwise fun p q => ∀ a, ¬ (InEntry p a ∧ InEntry q a) := by
  refine (List.pairwise_map.mp (spans_apart verified sizes)).imp ?_
  rintro p q apart a ⟨⟨above, below⟩, above', below'⟩
  rcases apart with first | second
  · omega
  · omega

theorem ends_below (fits : ¬ limit < PartitionTable.flashSize table) (shared : SharedEndsBelow limit table) :
    ∀ p ∈ table, (PartitionTable.span p).1 + (PartitionTable.span p).2 ≤ limit := by
  intro p member
  have here : PartitionTable.span p ∈ table.map PartitionTable.span := List.mem_map_of_mem member
  unfold PartitionTable.flashSize at fits
  cases sorted : (table.map PartitionTable.span).mergeSort fun a b => decide (b.1 ≤ a.1) with
  | nil =>
      have none := (List.mergeSort_perm (table.map PartitionTable.span) fun a b => decide (b.1 ≤ a.1)).symm.subset here
      rw [sorted] at none
      cases none
  | cons first rest =>
      rw [sorted] at fits
      obtain ⟨isEntry, highest, sameOffset⟩ := highest_first sorted
      have below : first.1 + first.2 ≤ limit := Int.not_lt.mp fits
      have natural := spans_natural verified sizes first isEntry
      have own := spans_natural verified sizes _ here
      by_cases same : (PartitionTable.span p).1 = first.1
      · rcases sameOffset _ here same with equal | later
        · rw [equal]
          exact below
        · have ordered : (table.map PartitionTable.span).Pairwise fun x y => x.1 = y.1 → y.1 + y.2 ≤ limit :=
            List.pairwise_map.mpr shared
          exact ordered.forall_sublist later same.symm
      · have apart := (spans_apart verified sizes).forall here isEntry fun equal => same (congrArg Prod.fst equal)
        have less := highest _ here
        rcases apart with before | after
        · omega
        · omega

end

theorem convertCsv_iff {cfg : Settings} {sizeMb : Int} {input : Text} {b : List Nvs.Byte} :
    PartitionTable.convertCsv cfg (some sizeMb) input = .ok b ↔
      ∃ table, PartitionTable.fromCsv cfg input = .ok table ∧ PartitionTable.verify cfg table = .ok () ∧
        ¬ sizeMb * 1024 * 1024 < PartitionTable.flashSize table ∧ PartitionTable.toBinary cfg table = .ok b := by
  unfold PartitionTable.convertCsv
  constructor
  · intro converted
    obtain ⟨table, read, converted⟩ := bind_eq_ok.mp converted
    obtain ⟨_, verified, converted⟩ := bind_eq_ok.mp converted
    simp only at converted
    split at converted
    · cases converted
    · rename_i fits
      exact ⟨table, read, verified, fits, converted⟩
  · rintro ⟨table, read, verified, fits, packed⟩
    refine bind_eq_ok.mpr ⟨table, read, bind_eq_ok.mpr ⟨(), verified, ?_⟩⟩
    simp only
    rw [if_neg fits]
    exact packed

/-- A table that is generated for a flash size is placed correctly exactly if each entry that is listed after another
of the same offset ends within the flash. -/
theorem generated_placed_iff (cfg : Settings) (sizeMb : Int) (input : Text) (b : List Nvs.Byte)
    (converted : PartitionTable.convertCsv cfg (some sizeMb) input = .ok b) :
    ∃ table, PartitionTable.fromCsv cfg input = .ok table ∧
      (PlacedRight cfg (sizeMb * 1024 * 1024) input table ↔ SharedEndsBelow (sizeMb * 1024 * 1024) table) := by
  obtain ⟨table, read, verified, fits, packed⟩ := convertCsv_iff.mp converted
  have sizes := toBinary_natural packed
  have each := (table_verify_ok verified).1
  refine ⟨table, read, ?_⟩
  constructor
  · intro placed
    refine List.Pairwise.imp_of_mem ?_ placed.disjoint
    intro p q _ member _ _
    exact placed.inFlash q member
  · intro shared
    constructor
    · intro p member
      obtain ⟨type, subtype, offset, size, isType, -, isOffset, isSize⟩ := verify_fields (each p member)
      simp [isType, isOffset, isSize]
    · exact entries_disjoint verified sizes
    · intro p member
      obtain ⟨-, -, offset, -, -, -, isOffset, -⟩ := verify_fields (each p member)
      simp only [PartitionTable.span, isOffset, Option.getD_some]
      exact offset_above verified member isOffset
    · intro p member
      exact verify_aligned (each p member)
    · exact ends_below verified sizes fits shared
    · intro lines parsed
      unfold PartitionTable.fromCsv at read
      obtain ⟨lines', parsed', fixed⟩ := bind_eq_ok.mp read
      rw [parsed] at parsed'
      cases parsed'
      refine (fixUp_assigned fixed).imp ?_
      intro line p assigned app
      exact assigned.2 (assigned.1.symm.trans app)

def singleAppText : Text := "nvs,data,nvs,0x9000,0x6000\nphy_init,data,phy,,0x1000\nfactory,app,factory,,0xF0000".toList

theorem single_app_placed :
    ∃ table, PartitionTable.fromCsv plainSettings singleAppText = .ok table ∧
      PlacedRight plainSettings (1 * 1024 * 1024) singleAppText table := by
  have read : PartitionTable.fromCsv plainSettings singleAppText = .ok singleAppEntries := by decide +kernel
  have spans : singleAppEntries.map PartitionTable.span = [(0x9000, 0x6000), (0xF000, 0x1000), (0x10000, 0xF0000)] := rfl
  have verified : PartitionTable.verify plainSettings singleAppEntries = .ok () := by
    rw [PartitionTable.verify, spans, List.mergeSort_of_pairwise (by decide)]
    rfl
  have ends : PartitionTable.flashSize singleAppEntries = 0x100000 := by
    rw [PartitionTable.flashSize, spans]
    simp [List.mergeSort]
  obtain ⟨b, packed⟩ : ∃ b, PartitionTable.toBinary plainSettings singleAppEntries = .ok b := ⟨_, rfl⟩
  have converted := convertCsv_iff.mpr
    ⟨singleAppEntries, read, verified, show ¬ 1 * 1024 * 1024 < _ by rw [ends]; decide, packed⟩
  obtain ⟨table, read', placed⟩ := generated_placed_iff plainSettings 1 singleAppText b converted
  refine ⟨table, read', placed.mpr ?_⟩
  cases read.symm.trans read'
  unfold SharedEndsBelow
  decide

def sharedText : Text := "a,data,nvs,0x9000,0\nb,data,nvs,0x9000,2M".toList

def sharedEntries : PartitionTable :=
  [⟨"a".toList, some 1, some 2, some 0x9000, some 0, false⟩, ⟨"b".toList, some 1, some 2, some 0x9000, some 0x200000, false⟩]

/-- The second entry ends beyond a flash of 1 MB, and the table is generated. -/
theorem shared_offset_beyond_flash :
    ¬ ∀ (cfg : Settings) (sizeMb : Int) (input : Text) (b : List Nvs.Byte) (table : PartitionTable),
      cfg.offsetPartTable ≠ 0 → PartitionTable.convertCsv cfg (some sizeMb) input = .ok b →
      PartitionTable.fromCsv cfg input = .ok table → PlacedRight cfg (sizeMb * 1024 * 1024) input table := by
  intro claim
  have read : PartitionTable.fromCsv plainSettings sharedText = .ok sharedEntries := by decide +kernel
  have listed (le : Int × Int → Int × Int → Bool) (order : le (0x9000, 0) (0x9000, 0x200000) = true) :
      (sharedEntries.map PartitionTable.span).mergeSort le = [(0x9000, 0), (0x9000, 0x200000)] :=
    List.mergeSort_of_pairwise (List.pairwise_pair.mpr order)
  have verified : PartitionTable.verify plainSettings sharedEntries = .ok () := by
    rw [PartitionTable.verify, listed _ (by decide)]
    rfl
  have ends : PartitionTable.flashSize sharedEntries = 0x9000 := by
    rw [PartitionTable.flashSize, listed _ (by decide)]
    rfl
  obtain ⟨b, packed⟩ : ∃ b, PartitionTable.toBinary plainSettings sharedEntries = .ok b := ⟨_, rfl⟩
  have converted := convertCsv_iff.mpr ⟨sharedEntries, read, verified, show ¬ 1 * 1024 * 1024 < _ by rw [ends]; decide, packed⟩
  have placed := claim plainSettings 1 sharedText b sharedEntries (by decide) converted read
  exact absurd (placed.inFlash _ (List.mem_of_getElem? (show sharedEntries[1]? = some _ from rfl))) (by decide)

end EspFirmware.Proof.Tool
