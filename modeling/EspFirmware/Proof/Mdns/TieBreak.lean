import EspFirmware.Proof.Mdns.TxtRecord

/-!
Of two responders that claim a service one wins by the SRV data, always. By the TXT data it is so where the length that
each presumes of its own list does not stand in the way.
-/

namespace EspFirmware.Proof.Mdns
open EspFirmware.Lib EspFirmware.Mdns EspFirmware.Spec OutPacket

theorem memcmp_nil (b : List (BitVec 8)) : memcmp [] b = 0 := rfl

theorem memcmp_cons (x y : BitVec 8) (xs ys : List (BitVec 8)) :
    memcmp (x :: xs) (y :: ys) =
      if x.toNat < y.toNat then -1 else if y.toNat < x.toNat then 1 else memcmp xs ys := rfl

theorem memcmp_swap (a b : List (BitVec 8)) : memcmp b a = -memcmp a b := by
  induction a generalizing b with
  | nil =>
      cases b with
      | nil => rfl
      | cons y ys => rfl
  | cons x xs ih =>
      cases b with
      | nil => rfl
      | cons y ys =>
          rw [memcmp_cons, memcmp_cons]
          rcases Nat.lt_trichotomy x.toNat y.toNat with less | same | more
          · rw [if_neg (by omega), if_pos less, if_pos less]
            rfl
          · rw [if_neg (by omega), if_neg (by omega), if_neg (by omega), if_neg (by omega)]
            exact ih ys
          · rw [if_pos more, if_neg (by omega), if_pos more]

theorem memcmp_eq_zero {a b : List (BitVec 8)} (short : a.length ≤ b.length) : memcmp a b = 0 ↔ a <+: b := by
  induction a generalizing b with
  | nil => exact iff_of_true (memcmp_nil b) List.nil_prefix
  | cons x xs ih =>
      cases b with
      | nil => exact absurd short (by simp)
      | cons y ys =>
          rw [List.length_cons, List.length_cons] at short
          rw [memcmp_cons, List.cons_prefix_cons, ← ih (by omega)]
          rcases Nat.lt_trichotomy x.toNat y.toNat with less | same | more
          · rw [if_pos less]
            refine iff_of_false (by decide) ?_
            rintro ⟨rfl, _⟩
            omega
          · rw [if_neg (by omega), if_neg (by omega), and_iff_right (BitVec.eq_of_toNat_eq same)]
          · rw [if_neg (by omega), if_pos more]
            refine iff_of_false (by decide) ?_
            rintro ⟨rfl, _⟩
            omega

theorem memcmp_append {a b : List (BitVec 8)} (rest : List (BitVec 8)) (differ : memcmp a b ≠ 0) :
    memcmp (a ++ rest) b = memcmp a b := by
  induction a generalizing b with
  | nil => exact absurd (memcmp_nil b) differ
  | cons x xs ih =>
      cases b with
      | nil => exact absurd rfl differ
      | cons y ys =>
          rw [memcmp_cons] at differ
          rw [List.cons_append, memcmp_cons, memcmp_cons]
          split
          · rfl
          · next notLess =>
              rw [if_neg notLess] at differ
              split
              · rfl
              · next notMore =>
                  rw [if_neg notMore] at differ
                  exact ih differ

theorem winner_neg (x : Int) : winner (-x) = -winner x := by
  unfold winner
  rcases Int.lt_trichotomy x 0 with less | rfl | more
  · rw [if_pos (by omega), if_neg (by omega), if_pos less]
  · rfl
  · rw [if_neg (by omega), if_pos (by omega), if_pos more]
    rfl

theorem winner_zero {x : Int} : winner x = 0 ↔ x = 0 := by
  unfold winner
  rcases Int.lt_trichotomy x 0 with less | rfl | more
  · rw [if_neg (by omega), if_pos less]
    exact iff_of_false (by decide) (by omega)
  · exact iff_of_true rfl rfl
  · rw [if_pos more]
    exact iff_of_false (by decide) (by omega)

theorem memcmp_same {a b : List (BitVec 8)} (same : a.length = b.length) : memcmp a b = 0 ↔ a = b := by
  rw [memcmp_eq_zero (Nat.le_of_eq same)]
  exact ⟨fun front => front.eq_of_length same, fun is => is ▸ List.prefix_refl a⟩

theorem srvBytes_length (priority weight port : BitVec 16) (host : CString) :
    (srvBytes priority weight port host MDNS_DEFAULT_DOMAIN).length = host.length + 14 := by
  unfold srvBytes u16Bytes MDNS_DEFAULT_DOMAIN
  simp only [List.length_append, List.length_cons, List.length_nil]
  omega

theorem srv_oneWinner (serverA serverB : WireServer) (a b : WireService) (hostA : serverA.hostname ≠ [])
    (hostB : serverB.hostname ≠ []) :
    OneWinner
      (some (mdnsCheckSrvCollision serverA a b.priority b.weight b.port serverB.hostname MDNS_DEFAULT_DOMAIN))
      (some (mdnsCheckSrvCollision serverB b a.priority a.weight a.port serverA.hostname MDNS_DEFAULT_DOMAIN))
      (srvBytes a.priority a.weight a.port serverA.hostname MDNS_DEFAULT_DOMAIN =
        srvBytes b.priority b.weight b.port serverB.hostname MDNS_DEFAULT_DOMAIN) := by
  have lengthA := srvBytes_length a.priority a.weight a.port serverA.hostname
  have lengthB := srvBytes_length b.priority b.weight b.port serverB.hostname
  have domain : MDNS_DEFAULT_DOMAIN.length = 5 := rfl
  unfold mdnsCheckSrvCollision
  rw [if_neg hostA, if_neg hostB]
  dsimp only
  rcases Nat.lt_trichotomy serverA.hostname.length serverB.hostname.length with less | same | more
  · rw [if_pos (by omega), if_neg (by omega), if_pos (by omega)]
    refine ⟨1, rfl, rfl, iff_of_false (by decide) ?_⟩
    intro is
    rw [is] at lengthA
    omega
  · rw [if_neg (by omega), if_neg (by omega), if_neg (by omega), if_neg (by omega)]
    refine ⟨_, rfl, ?_, ?_⟩
    · rw [memcmp_swap, winner_neg]
    · rw [winner_zero, memcmp_same (by omega)]
  · rw [if_neg (by omega), if_pos (by omega), if_pos (by omega)]
    refine ⟨-1, rfl, rfl, iff_of_false (by decide) ?_⟩
    intro is
    rw [is] at lengthA
    omega

theorem wireString_cut (s : CString) : wireString s = labelBytes (cut s) := by
  unfold wireString labelBytes
  rw [length_cut]
  refine congrArg₂ _ (BitVec.eq_of_toNat_eq ?_) rfl
  rw [BitVec.toNat_ofNat, BitVec.toNat_ofNat, Nat.mod_mod_of_dvd _ (by decide)]

theorem length_wireString (s : CString) : (wireString s).length = s.length % 256 + 1 := by
  rw [wireString_cut]
  change (cut s).length + 1 = _
  rw [length_cut]

theorem wire_cons (item : CString × CString) (rest : List (CString × CString)) :
    ((item :: rest).flatMap fun item => wireString (txtItem item)) =
      wireString (txtItem item) ++ rest.flatMap fun item => wireString (txtItem item) := List.flatMap_cons

theorem appendString_some {p : OutPacket} {s : CString} (written : (p.mdnsAppendString s).1 ≠ 0) :
    s.length % 256 ≠ 255 ∧ p.index + s.length % 256 + 1 < MDNS_MAX_PACKET_SIZE := by
  unfold mdnsAppendString at written
  dsimp only at written
  by_cases full : p.index + s.length % 256 + 1 ≥ MDNS_MAX_PACKET_SIZE
  · rw [if_pos full] at written
    exact absurd rfl written
  · rw [if_neg full] at written
    refine ⟨?_, by omega⟩
    intro last
    rw [last] at written
    exact written rfl

theorem txtItems_wire {p : OutPacket} {txt : List (CString × CString)} {n total : Nat} (all : (txtItems txt n p).1 = some total)
    (room : p.index < MDNS_MAX_PACKET_SIZE) :
    total = n + (txt.flatMap fun item => wireString (txtItem item)).length ∧
      Appends p (txtItems txt n p).2 (txt.flatMap fun item => wireString (txtItem item)) ∧
      (txtItems txt n p).2.index < MDNS_MAX_PACKET_SIZE ∧ ∀ item ∈ txt, (txtItem item).length % 256 ≠ 255 := by
  induction txt generalizing n p with
  | nil => exact ⟨(Option.some.inj all).symm, Appends.refl p, room, fun _ none => absurd none List.not_mem_nil⟩
  | cons item rest ih =>
      rw [txtItems] at all ⊢
      dsimp only at all ⊢
      by_cases failed : (p.mdnsAppendString (txtItem item)).1 = 0
      · rw [if_pos failed] at all
        cases all
      · rw [if_neg failed] at all ⊢
        obtain ⟨short, space⟩ := appendString_some failed
        obtain ⟨written, appends⟩ := appendCut_spec short space
        rw [← wireString_cut] at appends
        have next := appends.index
        rw [length_wireString] at next
        rw [written, length_cut] at all ⊢
        obtain ⟨sum, more, last, others⟩ := ih all (by omega)
        rw [wire_cons, List.length_append, length_wireString]
        refine ⟨by omega, appends.trans more, last, ?_⟩
        intro other inside
        rcases List.mem_cons.mp inside with rfl | later
        · exact short
        · exact others other later

structure Sendable (txt : List (CString × CString)) : Prop where
  short : ∀ item ∈ txt, (txtItem item).length % 256 ≠ 255
  room : (txtWire txt).length < MDNS_MAX_PACKET_SIZE

theorem txtWire_pos (txt : List (CString × CString)) : 0 < (txtWire txt).length := by
  unfold txtWire
  cases txt with
  | nil => exact Nat.zero_lt_one
  | cons item rest =>
      rw [if_neg (List.cons_ne_nil _ _), wire_cons, List.length_append, length_wireString]
      omega

theorem txtData_wire {p : OutPacket} {txt : List (CString × CString)} (written : (txtData txt p).1 ≠ 0)
    (room : p.index < MDNS_MAX_PACKET_SIZE) :
    Fitted DataBytes p (txtData txt p) (txtWire txt) ∧ ∀ item ∈ txt, (txtItem item).length % 256 ≠ 255 := by
  cases txt with
  | nil =>
      have fitted : Fitted (fun _ => True) p (1, ⟨Memory.store p.mem p.index [0], p.index + 1⟩) [0] :=
        ⟨rfl, appends_store p [0], trivial, room⟩
      exact ⟨fitted.data Nat.zero_lt_one, fun _ none => absurd none List.not_mem_nil⟩
  | cons item rest =>
      have some_ := txtWire_pos (item :: rest)
      have is : txtWire (item :: rest) = (item :: rest).flatMap fun item => wireString (txtItem item) :=
        if_neg (List.cons_ne_nil _ _)
      cases result : (txtItems (item :: rest) 0 p).1 with
      | none =>
          have none_ : txtData (item :: rest) p = (0, (txtItems (item :: rest) 0 p).2) := by
            unfold txtData
            generalize txtItems (item :: rest) 0 p = result' at result
            obtain ⟨total, p'⟩ := result'
            cases result
            rfl
          rw [none_] at written
          exact absurd rfl written
      | some total =>
          obtain ⟨sum, appends, last, short⟩ := txtItems_wire result room
          rw [← is] at sum appends
          rw [Nat.zero_add] at sum
          have made : txtData (item :: rest) p = (total, (txtItems (item :: rest) 0 p).2) := by
            unfold txtData
            generalize txtItems (item :: rest) 0 p = result' at result
            obtain ⟨total', p'⟩ := result'
            cases result
            cases total with
            | zero => omega
            | succ k => rfl
          rw [made]
          have fitted : Fitted (fun _ => True) p (total, (txtItems (item :: rest) 0 p).2) (txtWire (item :: rest)) :=
            ⟨sum, appends, trivial, Nat.le_of_lt last⟩
          exact ⟨fitted.data some_, short⟩

theorem encoding_wire {server : WireServer} {service : WireService} {data : List (BitVec 8)}
    (encoding : TxtEncoding server service data) : data = txtWire service.txt ∧ Sendable service.txt := by
  obtain ⟨name, flush, bye, p, named, written, rfl⟩ := encoding
  rw [appendTxtRecord_named named] at written ⊢
  unfold appendRecord at written ⊢
  dsimp only at written ⊢
  generalize (mdnsAppendFqdn [name, service.service, service.proto, MDNS_DEFAULT_DOMAIN] p) = result at written ⊢
  obtain ⟨part, p₁⟩ := result
  dsimp only at written ⊢
  by_cases unnamed : part % 256 = 0
  · rw [if_pos unnamed] at written
    exact absurd rfl written
  · rw [if_neg unnamed] at written ⊢
    by_cases full : p₁.index + 10 ≥ MDNS_MAX_PACKET_SIZE
    · have none_ : (p₁.mdnsAppendType .txt flush (if bye then 0 else 4500)).1 = 0 := by
        unfold mdnsAppendType
        rw [if_pos full]
      rw [if_pos none_] at written
      exact absurd rfl written
    · have space : p₁.index + 10 < MDNS_MAX_PACKET_SIZE := by omega
      obtain ⟨ten, fields, eight, typed⟩ := appendType_spec (t := .txt) (f := flush) (k := if bye then 0 else 4500) space
      have typedIndex := typed.index
      rw [List.length_append, eight] at typedIndex
      rw [ten, if_neg (by decide)] at written ⊢
      by_cases failed : (txtData service.txt (p₁.mdnsAppendType .txt flush (if bye then 0 else 4500)).2).1 = 0
      · rw [if_pos failed] at written
        exact absurd rfl written
      · rw [if_neg failed]
        obtain ⟨fitted, short⟩ := txtData_wire failed (by rw [typedIndex]; exact space)
        obtain ⟨front, eight, appends, _⟩ := record_rest (Appends.refl p₁) space fitted
        have start : p₁.index + 10 = p₁.index + ([] ++ front).length + 2 := by
          rw [List.nil_append, eight]
        have last := fitted.appends.index
        have most := fitted.room
        rw [start, recordData_written fitted.form.2 appends]
        exact ⟨rfl, short, by omega⟩

theorem presumed_dataLen (txt : List (CString × CString)) : txtDataLen txt = presumedLength txt := by
  cases txt with
  | nil => rfl
  | cons item rest =>
      have size : (txtItem item).length = item.1.length + 1 + item.2.length := by
        unfold txtItem
        rw [List.length_append, List.length_append]
        rfl
      change 1 + (rest.length + 1) * (2 + (item.1.length + item.2.length)) =
        1 + (rest.length + 1) * ((txtItem item).length + 1)
      rw [size, show 2 + (item.1.length + item.2.length) = item.1.length + 1 + item.2.length + 1 by omega]

theorem presumed_nil : presumedLength [] = 1 := rfl

theorem presumed_cons (item : CString × CString) (rest : List (CString × CString)) :
    2 < presumedLength (item :: rest) := by
  have some_ := txtItem_long item
  have many : (txtItem item).length + 1 ≤ (rest.length + 1) * ((txtItem item).length + 1) :=
    Nat.le_mul_of_pos_left _ (Nat.succ_pos _)
  change 2 < 1 + (rest.length + 1) * ((txtItem item).length + 1)
  omega

theorem check_longer {a : WireService} {data : List (BitVec 8)} {stack : Memory}
    (longer : presumedLength a.txt < data.length) : mdnsCheckTxtCollision a data stack = some 1 := by
  unfold mdnsCheckTxtCollision
  rw [presumed_dataLen]
  cases list : a.txt with
  | nil =>
      rw [list, presumed_nil] at longer
      rw [if_neg (by omega), if_pos ⟨longer, rfl⟩]
  | cons item rest =>
      have some_ := presumed_cons item rest
      rw [list] at longer
      rw [if_neg (by omega), if_neg (fun both => List.cons_ne_nil _ _ both.2),
        if_neg (fun both => List.cons_ne_nil _ _ both.2), if_pos longer]

theorem check_shorter {a : WireService} {data : List (BitVec 8)} {stack : Memory} (some_ : 0 < data.length)
    (shorter : data.length < presumedLength a.txt) : mdnsCheckTxtCollision a data stack = some (-1) := by
  unfold mdnsCheckTxtCollision
  rw [presumed_dataLen]
  cases list : a.txt with
  | nil =>
      rw [list, presumed_nil] at shorter
      omega
  | cons item rest =>
      rw [list] at shorter
      by_cases one : data.length = 1
      · rw [if_pos ⟨one, List.cons_ne_nil _ _⟩]
      · rw [if_neg (fun both => one both.1), if_neg (fun both => List.cons_ne_nil _ _ both.2),
          if_neg (fun both => List.cons_ne_nil _ _ both.2), if_neg (by omega), if_pos shorter]

theorem ours_written {p : OutPacket} {txt : List (CString × CString)}
    (short : ∀ item ∈ txt, (txtItem item).length % 256 ≠ 255)
    (room : p.index + (txt.flatMap fun item => wireString (txtItem item)).length < MDNS_MAX_PACKET_SIZE) :
    Appends p (txt.foldl (fun (p : OutPacket) item => (p.mdnsAppendString (txtItem item)).2) p)
        (txt.flatMap fun item => wireString (txtItem item)) ∧
      ∀ x, p.index + (txt.flatMap fun item => wireString (txtItem item)).length ≤ x →
        (txt.foldl (fun (p : OutPacket) item => (p.mdnsAppendString (txtItem item)).2) p).mem x = p.mem x := by
  induction txt generalizing p with
  | nil => exact ⟨Appends.refl p, fun _ _ => rfl⟩
  | cons item rest ih =>
      rw [wire_cons, List.length_append, length_wireString] at room
      have space : p.index + (txtItem item).length % 256 + 1 < MDNS_MAX_PACKET_SIZE := by omega
      obtain ⟨_, appends⟩ := appendCut_spec (short item List.mem_cons_self) space
      rw [← wireString_cut] at appends
      have next := appends.index
      rw [length_wireString] at next
      have behind : ∀ x, p.index + ((txtItem item).length % 256 + 1) ≤ x →
          (p.mdnsAppendString (txtItem item)).2.mem x = p.mem x := by
        intro x further
        unfold mdnsAppendString mdnsAppendU8
        dsimp only
        rw [if_neg (by omega), if_neg (by omega)]
        have cutLength := length_cut (txtItem item)
        unfold cut at cutLength
        dsimp only
        refine (Memory.store_other _ (Or.inr ?_)).trans (Memory.store_other _ (Or.inr ?_))
        · rw [cutLength]
          omega
        · rw [List.length_singleton]
          omega
      obtain ⟨more, untouched⟩ := ih (p := (p.mdnsAppendString (txtItem item)).2)
        (fun other inside => short other (List.mem_cons_of_mem _ inside)) (by omega)
      rw [wire_cons, List.foldl_cons]
      refine ⟨appends.trans more, ?_⟩
      intro x further
      rw [List.length_append, length_wireString] at further
      exact (untouched x (by omega)).trans (behind x (by omega))

section
variable {a b : WireService} {stack : Memory}

theorem wire_single {txt : List (CString × CString)} (one : (txtWire txt).length = 1) : txtWire txt = [0] := by
  unfold txtWire at one ⊢
  cases txt with
  | nil => rfl
  | cons item rest =>
      rw [if_neg (List.cons_ne_nil _ _), wire_cons] at one ⊢
      rw [List.length_append, length_wireString] at one
      have no : (txtItem item).length % 256 = 0 := by omega
      have rest_ : rest.flatMap (fun item => wireString (txtItem item)) = [] := List.length_eq_zero_iff.mp (by omega)
      rw [rest_]
      unfold wireString
      rw [no, List.append_nil, List.take_zero]
      refine congrArg (· :: []) (BitVec.eq_of_toNat_eq ?_)
      rw [BitVec.toNat_ofNat]
      exact no

theorem check_compares (sendable : Sendable a.txt) (presumed : (txtWire b.txt).length = presumedLength a.txt) :
    mdnsCheckTxtCollision a (txtWire b.txt) stack =
      if (txtWire b.txt).length < (txtWire a.txt).length then none
      else some (winner (memcmp (txtWire a.txt ++ Memory.load stack (txtWire a.txt).length
        ((txtWire b.txt).length - (txtWire a.txt).length)) (txtWire b.txt))) := by
  cases list : a.txt with
  | nil =>
      rw [list, presumed_nil] at presumed
      unfold mdnsCheckTxtCollision
      rw [list, if_neg (fun both => both.2 rfl), if_neg (fun both => by omega), if_pos ⟨presumed, rfl⟩,
        wire_single presumed]
      rfl
  | cons item rest =>
      have long := presumed_cons item rest
      rw [← list]
      have some_ : a.txt ≠ [] := by
        rw [list]
        exact List.cons_ne_nil _ _
      rw [← list] at long
      have is : txtWire a.txt = a.txt.flatMap fun item => wireString (txtItem item) := if_neg some_
      have room := sendable.room
      obtain ⟨appends, untouched⟩ := ours_written (p := ⟨stack, 0⟩) sendable.short (by rw [← is, Nat.zero_add]; exact room)
      rw [← is] at appends untouched
      unfold mdnsCheckTxtCollision
      rw [presumed_dataLen, if_neg (fun both => by omega), if_neg (fun both => some_ both.2),
        if_neg (fun both => some_ both.2), if_neg (by omega), if_neg (by omega)]
      have index := appends.index
      have bytes := appends.bytes
      dsimp only at index bytes untouched ⊢
      generalize a.txt.foldl (fun (p : OutPacket) item => (p.mdnsAppendString (txtItem item)).2) ⟨stack, 0⟩ = ours at *
      rw [Nat.zero_add] at index
      by_cases further : (txtWire b.txt).length < (txtWire a.txt).length
      · rw [if_pos (by omega), if_pos further]
      · rw [if_neg (by omega), if_neg further]
        obtain ⟨n, all⟩ := Nat.le.dest (Nat.le_of_not_lt further)
        rw [← all, Nat.add_sub_cancel_left, Memory.load_append, bytes, Nat.zero_add]
        have behind : Memory.load ours.mem (txtWire a.txt).length n = Memory.load stack (txtWire a.txt).length n := by
          refine Memory.load_congr ?_
          intro x further _
          exact untouched x (by omega)
        rw [behind]

end

theorem oneWinner_swap {ours theirs : Option Int} {same same' : Prop} (equal : same ↔ same') :
    OneWinner ours theirs same ↔ OneWinner theirs ours same' := by
  have half : ∀ {x y : Option Int} {p q : Prop}, (p ↔ q) → OneWinner x y p → OneWinner y x q := by
    rintro x y p q is ⟨r, first, second, zero⟩
    refine ⟨-r, second, ?_, ?_⟩
    · rw [first, Int.neg_neg]
    · rw [← is, ← zero]
      omega
  exact ⟨half equal, half equal.symm⟩

theorem oneWinner_some {x y : Int} {same : Prop} : OneWinner (some x) (some y) same ↔ y = -x ∧ (x = 0 ↔ same) := by
  constructor
  · rintro ⟨r, first, second, zero⟩
    cases first
    exact ⟨Option.some.inj second, zero⟩
  · rintro ⟨rfl, zero⟩
    exact ⟨x, rfl, rfl, zero⟩

theorem winner_one {x : Int} : winner x = 1 ↔ x < 0 := by
  unfold winner
  split
  · exact iff_of_false (by decide) (by omega)
  · split
    · exact iff_of_true rfl (by assumption)
    · exact iff_of_false (by decide) (by omega)

theorem winner_minus {x : Int} : winner x = -1 ↔ 0 < x := by
  rw [← Int.neg_inj, Int.neg_neg, ← winner_neg, winner_one]
  omega

section
variable {a b : WireService}

theorem compared_with {y : Int} (sendable : Sendable a.txt) (presumed : (txtWire b.txt).length = presumedLength a.txt)
    (decided : y ≠ 0) :
    (∀ stack, OneWinner (mdnsCheckTxtCollision a (txtWire b.txt) stack) (some y) (txtWire a.txt = txtWire b.txt)) ↔
      (txtWire a.txt).length ≤ (txtWire b.txt).length ∧ winner (memcmp (txtWire a.txt) (txtWire b.txt)) = -y := by
  constructor
  · intro all
    by_cases further : (txtWire b.txt).length < (txtWire a.txt).length
    · obtain ⟨r, written, _⟩ := all fun _ => 0
      rw [check_compares sendable presumed, if_pos further] at written
      cases written
    · have fits := Nat.le_of_not_lt further
      -- the array may hold the very bytes that are received
      have filled (rest : List (BitVec 8)) (long : rest.length = (txtWire b.txt).length - (txtWire a.txt).length) :
          winner (memcmp (txtWire a.txt ++ rest) (txtWire b.txt)) = -y := by
        have one := all (Memory.store (fun _ => 0) (txtWire a.txt).length rest)
        rw [check_compares sendable presumed, if_neg further, ← long, Memory.load_store, oneWinner_some] at one
        omega
      refine ⟨fits, ?_⟩
      have differ : memcmp (txtWire a.txt) (txtWire b.txt) ≠ 0 := by
        intro front
        obtain ⟨rest, whole⟩ := (memcmp_eq_zero fits).mp front
        have length := congrArg List.length whole
        rw [List.length_append] at length
        have tie := filled rest (by omega)
        rw [whole, (memcmp_same rfl).mpr rfl] at tie
        exact decided (by change 0 = -y at tie; omega)
      rw [← memcmp_append _ differ]
      exact filled (List.replicate _ 0) List.length_replicate
  · rintro ⟨fits, wins⟩ stack
    have differ : memcmp (txtWire a.txt) (txtWire b.txt) ≠ 0 := by
      intro none
      rw [none] at wins
      exact decided (by change 0 = -y at wins; omega)
    rw [check_compares sendable presumed, if_neg (by omega), memcmp_append _ differ, wins, oneWinner_some]
    refine ⟨by omega, iff_of_false (by omega) ?_⟩
    intro same
    rw [same, (memcmp_same rfl).mpr rfl] at differ
    exact differ rfl

theorem decided_by_length {ours : Int} (sendableB : Sendable b.txt) (decided : ours ≠ 0)
    (check : ∀ stack, mdnsCheckTxtCollision a (txtWire b.txt) stack = some ours) :
    (∀ stackA stackB, OneWinner (mdnsCheckTxtCollision a (txtWire b.txt) stackA)
        (mdnsCheckTxtCollision b (txtWire a.txt) stackB) (txtWire a.txt = txtWire b.txt)) ↔
      (txtWire a.txt ≠ txtWire b.txt ∧ presumedLength b.txt < (txtWire a.txt).length ∧ ours = -1) ∨
      (txtWire a.txt ≠ txtWire b.txt ∧ (txtWire a.txt).length < presumedLength b.txt ∧ ours = 1) ∨
      ((txtWire a.txt).length = presumedLength b.txt ∧ (txtWire b.txt).length ≤ (txtWire a.txt).length ∧
        winner (memcmp (txtWire b.txt) (txtWire a.txt)) = -ours) := by
  have some_ := txtWire_pos a.txt
  have swapped (theirs : Option Int) : OneWinner (some ours) theirs (txtWire a.txt = txtWire b.txt) ↔
      OneWinner theirs (some ours) (txtWire b.txt = txtWire a.txt) := oneWinner_swap eq_comm
  simp only [check, forall_const, swapped]
  rcases Nat.lt_trichotomy (txtWire a.txt).length (presumedLength b.txt) with shorter | presumed | longer
  · simp only [check_shorter some_ shorter, forall_const, oneWinner_some, eq_comm (a := txtWire b.txt)]
    constructor
    · rintro ⟨wins, different⟩
      exact .inr (.inl ⟨fun same => absurd (different.mpr same) (by decide), shorter, by omega⟩)
    · rintro (⟨_, longer, _⟩ | ⟨different, _, wins⟩ | ⟨presumed, _⟩)
      · omega
      · exact ⟨by omega, iff_of_false (by decide) different⟩
      · omega
  · rw [compared_with sendableB presumed decided]
    constructor
    · exact fun both => .inr (.inr ⟨presumed, both⟩)
    · rintro (⟨_, longer, _⟩ | ⟨_, shorter, _⟩ | ⟨_, both⟩)
      · omega
      · omega
      · exact both
  · simp only [check_longer longer, forall_const, oneWinner_some, eq_comm (a := txtWire b.txt)]
    constructor
    · rintro ⟨wins, different⟩
      exact .inl ⟨fun same => absurd (different.mpr same) (by decide), longer, by omega⟩
    · rintro (⟨different, _, wins⟩ | ⟨_, shorter, _⟩ | ⟨presumed, _⟩)
      · exact ⟨by omega, iff_of_false (by decide) different⟩
      · omega
      · omega

theorem txt_oneWinner (sendableA : Sendable a.txt) (sendableB : Sendable b.txt) :
    (∀ stackA stackB, OneWinner (mdnsCheckTxtCollision a (txtWire b.txt) stackA)
        (mdnsCheckTxtCollision b (txtWire a.txt) stackB) (txtWire a.txt = txtWire b.txt)) ↔ TxtOneWinner a.txt b.txt := by
  have some_ := txtWire_pos b.txt
  have order := memcmp_swap (txtWire a.txt) (txtWire b.txt)
  unfold TxtOneWinner
  dsimp only
  rcases Nat.lt_trichotomy (txtWire b.txt).length (presumedLength a.txt) with shorter | presumed | longer
  · rw [decided_by_length sendableB (by decide : (-1 : Int) ≠ 0) fun stack => check_shorter some_ shorter, Int.neg_neg,
      winner_one, order]
    constructor
    · rintro (⟨different, longer, _⟩ | ⟨_, _, wins⟩ | ⟨presumed, fits, less⟩)
      · exact .inr (.inl ⟨different, shorter, longer⟩)
      · cases wins
      · exact .inr (.inr (.inr (.inr ⟨presumed, fits, .inr ⟨by omega, shorter⟩⟩)))
    · rintro (⟨_, longer, _⟩ | ⟨different, _, longer⟩ | ⟨same, _⟩ | ⟨same, _⟩ | ⟨presumed, fits, less⟩)
      · omega
      · exact .inl ⟨different, longer, rfl⟩
      · omega
      · omega
      · exact .inr (.inr ⟨presumed, fits, by omega⟩)
  · rcases Nat.lt_trichotomy (txtWire a.txt).length (presumedLength b.txt) with shorter | both | longer
    · have check : ∀ stack, mdnsCheckTxtCollision b (txtWire a.txt) stack = some (-1) := fun stack =>
        check_shorter (txtWire_pos a.txt) shorter
      simp only [check, forall_const]
      rw [compared_with sendableA presumed (by decide), Int.neg_neg, winner_one]
      omega
    · by_cases equal : (txtWire a.txt).length = (txtWire b.txt).length
      · refine iff_of_true ?_ (.inr (.inr (.inl ⟨presumed, both, equal⟩)))
        intro stackA stackB
        rw [check_compares sendableA presumed, check_compares sendableB both, equal, if_neg (Nat.lt_irrefl _),
          if_neg (Nat.lt_irrefl _), Nat.sub_self, oneWinner_some]
        have none_ (stack : Memory) (i : Nat) : Memory.load stack i 0 = [] := rfl
        rw [none_, none_, List.append_nil, List.append_nil, order, winner_neg]
        exact ⟨rfl, winner_zero.trans (memcmp_same equal)⟩
      · -- the longer list is written behind the end of its array
        refine iff_of_false ?_ (by omega)
        intro all
        obtain ⟨r, ours, theirs, _⟩ := all (fun _ => 0) fun _ => 0
        rw [check_compares sendableA presumed] at ours
        rw [check_compares sendableB both] at theirs
        by_cases further : (txtWire b.txt).length < (txtWire a.txt).length
        · rw [if_pos further] at ours
          cases ours
        · rw [if_pos (by omega)] at theirs
          cases theirs
    · have check : ∀ stack, mdnsCheckTxtCollision b (txtWire a.txt) stack = some 1 := fun stack => check_longer longer
      simp only [check, forall_const]
      rw [compared_with sendableA presumed (by decide), winner_minus]
      omega
  · rw [decided_by_length sendableB (by decide : (1 : Int) ≠ 0) fun stack => check_longer longer, winner_minus, order]
    constructor
    · rintro (⟨_, _, wins⟩ | ⟨different, shorter, _⟩ | ⟨presumed, fits, less⟩)
      · cases wins
      · exact .inl ⟨different, longer, shorter⟩
      · exact .inr (.inr (.inr (.inr ⟨presumed, fits, .inl ⟨by omega, longer⟩⟩)))
    · rintro (⟨different, _, shorter⟩ | ⟨_, shorter, _⟩ | ⟨same, _⟩ | ⟨same, _⟩ | ⟨presumed, fits, less⟩)
      · exact .inr (.inl ⟨different, shorter, rfl⟩)
      · omega
      · omega
      · omega
      · exact .inr (.inr ⟨presumed, fits, by omega⟩)

end

theorem tie_break_iff (serverA serverB : WireServer) (a b : WireService) (dataA dataB : List (BitVec 8))
    (hostA : serverA.hostname ≠ []) (hostB : serverB.hostname ≠ []) (encodedA : TxtEncoding serverA a dataA)
    (encodedB : TxtEncoding serverB b dataB) :
    TieBroken serverA a serverB b dataA dataB ↔ TxtOneWinner a.txt b.txt := by
  obtain ⟨rfl, sendableA⟩ := encoding_wire encodedA
  obtain ⟨rfl, sendableB⟩ := encoding_wire encodedB
  rw [← txt_oneWinner sendableA sendableB]
  exact ⟨fun broken => broken.txt, fun txt => ⟨srv_oneWinner serverA serverB a b hostA hostB, txt⟩⟩

def firstTxtData (server : WireServer) (service : WireService) : List (BitVec 8) :=
  recordData (emptyPacket.mdnsAppendTxtRecord server service true false).2
    ((mdnsAppendFqdn [service.instanceName, service.service, service.proto, MDNS_DEFAULT_DOMAIN] emptyPacket).2.index + 10)

def longerService : WireService := { someService with txt := [([99], [100, 100, 100])] }

theorem tie_break_longer :
    TieBroken (someServer none) someService (someServer none) longerService
      (firstTxtData (someServer none) someService) (firstTxtData (someServer none) longerService) :=
  (tie_break_iff _ _ _ _ _ _ (List.cons_ne_nil _ _) (List.cons_ne_nil _ _)
    ⟨_, true, false, emptyPacket, rfl, by decide, rfl⟩
    ⟨_, true, false, emptyPacket, rfl, by decide, rfl⟩).mpr (by decide)

/-- Both have `c=d`, and both take the data of the other one for shorter. -/
theorem same_list_wins_twice :
    TxtEncoding (someServer none) someService [3, 99, 61, 100] ∧
    (∀ stack, mdnsCheckTxtCollision someService [3, 99, 61, 100] stack = some (-1)) ∧
    ¬ TieBroken (someServer none) someService (someServer none) someService [3, 99, 61, 100] [3, 99, 61, 100] := by
  have wins : ∀ stack, mdnsCheckTxtCollision someService [3, 99, 61, 100] stack = some (-1) :=
    fun stack => check_shorter (by decide) (by decide)
  refine ⟨⟨_, true, false, emptyPacket, rfl, by decide, by decide⟩, wins, ?_⟩
  intro broken
  obtain ⟨r, ours, theirs, _⟩ := broken.txt (fun _ => 0) fun _ => 0
  rw [wins] at ours theirs
  cases ours
  cases theirs

end EspFirmware.Proof.Mdns
