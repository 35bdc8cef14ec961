import Mathlib.Data.List.Induction
import EspFirmware.Proof.Mdns.Packet
import EspFirmware.Spec.MdnsRecords

/-!
TXT data is decoded string by string as long as strings without `=` are not followed by others: behind such a string one
byte is lost.
-/

namespace EspFirmware.Proof.Mdns
open EspFirmware.Lib EspFirmware.Mdns EspFirmware.Spec OutPacket

/-! ## Strings behind length bytes -/

theorem txtBytes_append (a b : List CString) : txtBytes (a ++ b) = txtBytes a ++ txtBytes b := List.flatMap_append

theorem txtBytes_cons (s : CString) (rest : List CString) : txtBytes (s :: rest) = lengthPrefixed s ++ txtBytes rest := by
  unfold txtBytes
  exact List.flatMap_cons

theorem length_lengthPrefixed (s : CString) : (lengthPrefixed s).length = s.length + 1 := rfl

theorem lengthByte {s : CString} (is : IsTxtString s) : (BitVec.ofNat 8 s.length).toNat = s.length := by
  have short := is.short
  rw [BitVec.toNat_ofNat]
  exact Nat.mod_eq_of_lt (by omega)

inductive TxtEnd : List (BitVec 8) → Prop where
  | nothing : TxtEnd []
  | zero (junk : List (BitVec 8)) : TxtEnd (0 :: junk)
  | cut (b : BitVec 8) (rest : List (BitVec 8)) (short : rest.length < b.toNat) : TxtEnd (b :: rest)

theorem split_strings (data : List (BitVec 8)) :
    ∃ strings tail, (∀ s ∈ strings, IsTxtString s) ∧ TxtEnd tail ∧ data = txtBytes strings ++ tail := by
  induction len : data.length using Nat.strongRecOn generalizing data with
  | ind n ih =>
      cases data with
      | nil => exact ⟨[], [], fun _ none => absurd none List.not_mem_nil, .nothing, rfl⟩
      | cons b rest =>
          rw [List.length_cons] at len
          have below := b.isLt
          by_cases zero : b = 0
          · rw [zero]
            exact ⟨[], 0 :: rest, fun _ none => absurd none List.not_mem_nil, .zero rest, rfl⟩
          · by_cases short : rest.length < b.toNat
            · exact ⟨[], b :: rest, fun _ none => absurd none List.not_mem_nil, .cut b rest short, rfl⟩
            · have positive : 0 < b.toNat := by
                refine Nat.pos_of_ne_zero ?_
                intro none
                exact zero (BitVec.eq_of_toNat_eq none)
              obtain ⟨strings, tail, are, ends, parts⟩ := ih (rest.drop b.toNat).length
                (by rw [List.length_drop]; omega) (rest.drop b.toNat) rfl
              have length : (rest.take b.toNat).length = b.toNat := by
                rw [List.length_take]
                omega
              refine ⟨rest.take b.toNat :: strings, tail, ?_, ends, ?_⟩
              · intro s inside
                rcases List.mem_cons.mp inside with rfl | later
                · exact ⟨by omega, by omega⟩
                · exact are s later
              · rw [txtBytes_cons, List.append_assoc, ← parts]
                change b :: rest = BitVec.ofNat 8 (rest.take b.toNat).length :: (rest.take b.toNat ++ _)
                rw [length, List.take_append_drop, BitVec.ofNat_toNat, BitVec.setWidth_eq]

theorem lengthPrefixed_inj {s t : CString} {x y : List (BitVec 8)} (isS : IsTxtString s) (isT : IsTxtString t)
    (same : lengthPrefixed s ++ x = lengthPrefixed t ++ y) : s = t ∧ x = y := by
  obtain ⟨byte, rest⟩ := List.cons.inj same
  have length : s.length = t.length := by
    rw [← lengthByte isS, ← lengthByte isT, byte]
  exact List.append_inj rest length

theorem txtBytes_split {strings before : List CString} {s : CString} {rest : List (BitVec 8)}
    (all : ∀ t ∈ strings, IsTxtString t) (front : ∀ t ∈ before, IsTxtString t) (is : IsTxtString s)
    (same : txtBytes strings = txtBytes before ++ lengthPrefixed s ++ rest) :
    ∃ after, strings = before ++ s :: after ∧ rest = txtBytes after := by
  induction before generalizing strings with
  | nil =>
      cases strings with
      | nil => cases same
      | cons t after =>
          rw [txtBytes_cons] at same
          obtain ⟨rfl, parts⟩ := lengthPrefixed_inj (all t List.mem_cons_self) is same
          exact ⟨after, rfl, parts.symm⟩
  | cons u before ih =>
      cases strings with
      | nil => cases same
      | cons t later =>
          rw [txtBytes_cons, txtBytes_cons, List.append_assoc, List.append_assoc] at same
          obtain ⟨rfl, parts⟩ := lengthPrefixed_inj (all t List.mem_cons_self) (front u List.mem_cons_self) same
          rw [← List.append_assoc] at parts
          obtain ⟨after, is_, tail⟩ := ih (fun t inside => all t (List.mem_cons_of_mem _ inside))
            (fun t inside => front t (List.mem_cons_of_mem _ inside)) parts
          exact ⟨after, by rw [is_]; rfl, tail⟩

theorem txtBytes_inj {strings others : List CString} (all : ∀ s ∈ strings, IsTxtString s)
    (others_ : ∀ s ∈ others, IsTxtString s) (same : txtBytes strings = txtBytes others) : strings = others := by
  induction strings generalizing others with
  | nil =>
      cases others with
      | nil => rfl
      | cons t later => cases same
  | cons s rest ih =>
      cases others with
      | nil => cases same
      | cons t later =>
          rw [txtBytes_cons, txtBytes_cons] at same
          obtain ⟨rfl, parts⟩ := lengthPrefixed_inj (all s List.mem_cons_self) (others_ t List.mem_cons_self) same
          rw [ih (fun u inside => all u (List.mem_cons_of_mem _ inside))
            (fun u inside => others_ u (List.mem_cons_of_mem _ inside)) parts]

theorem keyedItems_cons (s : CString) (later : List CString) :
    keyedItems (s :: later) = if HasKey s then keyAndValue s :: keyedItems later else keyedItems later := by
  unfold keyedItems
  simp only [List.filter_cons, decide_eq_true_eq]
  split
  · rfl
  · rfl

def cutText (text : CString × CString) : CString × CString := (cString text.1, cString text.2)

/-! ## One step of each loop -/

section
variable {data front rest : List (BitVec 8)} {s : CString} {fuel i : Nat}

theorem read_byte (b : BitVec 8) : (front ++ b :: rest)[front.length]? = some b := by
  rw [List.getElem?_append_right (Nat.le_refl _), Nat.sub_self]
  rfl

theorem read_string (parts : data = front ++ lengthPrefixed s ++ rest) :
    data[front.length]? = some (BitVec.ofNat 8 s.length) ∧ bytesAt data (front.length + 1) s.length = some s ∧
      data.length = front.length + 1 + s.length + rest.length := by
  have length : data.length = front.length + 1 + s.length + rest.length := by
    rw [parts, List.length_append, List.length_append, length_lengthPrefixed]
    omega
  have bytes : (data.drop (front.length + 1)).take s.length = s := by
    have again : data = (front ++ [BitVec.ofNat 8 s.length]) ++ (s ++ rest) := by
      rw [parts, List.append_assoc, List.append_assoc]
      rfl
    rw [again, List.drop_left' (by rw [List.length_append]; rfl)]
    exact List.take_left' rfl
  refine ⟨?_, ?_, length⟩
  · rw [parts, List.append_assoc]
    exact read_byte _
  · unfold bytesAt
    rw [if_pos (by omega), bytes]

theorem count_string (offered : Offered data) (is : IsTxtString s) (parts : data = front ++ lengthPrefixed s ++ rest)
    (n : Int) :
    txtCountFrom data (fuel + 1) front.length n = txtCountFrom data fuel (front ++ lengthPrefixed s).length (n + 1) := by
  obtain ⟨byte, _, length⟩ := read_string parts
  have some_ := is.some_
  unfold Offered at offered
  refine (if_pos (by omega)).trans ?_
  rw [byte]
  dsimp only
  rw [lengthByte is, Nat.mod_eq_of_lt (by omega), if_neg (by omega), if_neg (by omega), Nat.mod_eq_of_lt (by omega),
    List.length_append, length_lengthPrefixed]
  congr 1
  omega

theorem create_reads (offered : Offered data) (is : IsTxtString s) (parts : data = front ++ lengthPrefixed s ++ rest)
    (num : Nat) (txt : List TxtItem) :
    txtCreateFrom data num (fuel + 1) front.length txt =
      match mdnsTxtItemNameGetLen s with
      | none => txtCreateFrom data num fuel ((front.length + 1 + s.length) % 65536) txt
      | some name_len =>
          if txt.length ≥ num then .overrun
          else if s.length - name_len - 1 > 0 then
            match bytesAt data ((front.length + 1 + (name_len + 1)) % 65536) (s.length - name_len - 1) with
            | none => .outside
            | some value =>
                txtCreateFrom data num fuel
                  (((front.length + 1 + (name_len + 1)) % 65536 + (s.length - name_len - 1)) % 65536)
                  (txt ++ [⟨cString (s.take name_len), some (cString value)⟩])
          else
            txtCreateFrom data num fuel ((front.length + 1 + (name_len + 1)) % 65536)
              (txt ++ [⟨cString (s.take name_len), none⟩]) := by
  obtain ⟨byte, bytes, length⟩ := read_string parts
  have some_ := is.some_
  unfold Offered at offered
  refine (if_pos (by omega)).trans ?_
  rw [byte]
  dsimp only
  rw [lengthByte is, Nat.mod_eq_of_lt (by omega : front.length + 1 < 65536), if_neg (by omega), if_neg (by omega), bytes]
  all_goals rfl

theorem create_noKey (fuel : Nat) (offered : Offered data) (is : IsTxtString s) (parts : data = front ++ lengthPrefixed s ++ rest)
    (noKey : ¬ HasKey s) (num : Nat) (txt : List TxtItem) :
    txtCreateFrom data num (fuel + 1) front.length txt =
      txtCreateFrom data num fuel (front ++ lengthPrefixed s).length txt := by
  obtain ⟨_, _, length⟩ := read_string parts
  unfold Offered at offered
  have none_ : mdnsTxtItemNameGetLen s = none := if_pos (Decidable.not_not.mp noKey)
  rw [create_reads offered is parts, none_, List.length_append, length_lengthPrefixed]
  dsimp only
  rw [Nat.mod_eq_of_lt (by omega)]
  congr 1
  omega

theorem nameLen_key (key : HasKey s) : mdnsTxtItemNameGetLen s = some (s.takeWhile (· ≠ 61)).length := if_neg key

theorem create_open (offered : Offered data) (is : IsTxtString s) (parts : data = front ++ lengthPrefixed s ++ rest)
    (key : HasKey s) (open_ : 61 ∉ s) {num : Nat} {txt : List TxtItem} (room : txt.length < num) :
    txtCreateFrom data num (fuel + 1) front.length txt =
      txtCreateFrom data num fuel ((front ++ lengthPrefixed s).length + 1) (txt ++ [⟨cString s, none⟩]) := by
  obtain ⟨_, _, length⟩ := read_string parts
  unfold Offered at offered
  have whole : s.takeWhile (· ≠ 61) = s := by
    rw [List.takeWhile_eq_self_iff]
    intro b inside
    refine decide_eq_true ?_
    intro is_
    exact open_ (is_ ▸ inside)
  rw [create_reads offered is parts, nameLen_key key, whole, List.length_append, length_lengthPrefixed]
  dsimp only
  rw [if_neg (by omega), if_neg (by omega), Nat.mod_eq_of_lt (by omega), List.take_length]
  congr 1
  omega

theorem cut_at (inside : 61 ∈ s) : ∃ value, s = s.takeWhile (· ≠ 61) ++ 61 :: value ∧
    keyAndValue s = (s.takeWhile (· ≠ 61), value) := by
  unfold keyAndValue
  induction s with
  | nil => cases inside
  | cons b more ih =>
      by_cases first : b = 61
      · rw [first]
        exact ⟨more, rfl, rfl⟩
      · obtain ⟨value, cuts, text⟩ := ih ((List.mem_cons.mp inside).resolve_left (Ne.symm first))
        have other : decide (b ≠ 61) = true := decide_eq_true first
        rw [List.takeWhile_cons_of_pos (p := fun c => decide (c ≠ 61)) other,
          List.dropWhile_cons_of_pos (p := fun c => decide (c ≠ 61)) other]
        refine ⟨value, ?_, ?_⟩
        · rw [List.cons_append, ← cuts]
        · rw [(Prod.mk.inj text).2]

theorem create_closed (fuel : Nat) (offered : Offered data) (is : IsTxtString s) (parts : data = front ++ lengthPrefixed s ++ rest)
    (key : HasKey s) (closed : 61 ∈ s) {num : Nat} {txt : List TxtItem} (room : txt.length < num) :
    ∃ item, itemText item = cutText (keyAndValue s) ∧ txtCreateFrom data num (fuel + 1) front.length txt =
      txtCreateFrom data num fuel (front ++ lengthPrefixed s).length (txt ++ [item]) := by
  obtain ⟨_, _, length⟩ := read_string parts
  unfold Offered at offered
  obtain ⟨value, cuts, text⟩ := cut_at closed
  rw [create_reads offered is parts, nameLen_key key, text, List.length_append, length_lengthPrefixed]
  generalize s.takeWhile (· ≠ 61) = name at cuts
  have sizes : s.length = name.length + 1 + value.length := by
    rw [cuts, List.length_append, List.length_cons]
    omega
  have taken : s.take name.length = name := by
    rw [cuts]
    exact List.take_left' rfl
  dsimp only
  rw [if_neg (by omega), taken]
  cases value with
  | nil =>
      rw [List.length_nil] at sizes
      refine ⟨⟨cString name, none⟩, rfl, ?_⟩
      rw [if_neg (by omega), Nat.mod_eq_of_lt (by omega)]
      congr 1
      omega
  | cons b more =>
      rw [List.length_cons] at sizes
      refine ⟨⟨cString name, some (cString (b :: more))⟩, rfl, ?_⟩
      have left : s.length - name.length - 1 = (b :: more).length := by
        rw [List.length_cons]
        omega
      have bytes : bytesAt data (front.length + 1 + (name.length + 1)) (b :: more).length = some (b :: more) := by
        have again : data = (front ++ BitVec.ofNat 8 s.length :: (name ++ [61])) ++ (b :: more ++ rest) := by
          have tail : lengthPrefixed s = BitVec.ofNat 8 s.length :: (name ++ 61 :: (b :: more)) :=
            congrArg (BitVec.ofNat 8 s.length :: ·) cuts
          rw [parts, tail]
          simp only [List.append_assoc, List.cons_append, List.nil_append]
        have at_ : (front ++ BitVec.ofNat 8 s.length :: (name ++ [61])).length =
            front.length + 1 + (name.length + 1) := by
          simp
          omega
        unfold bytesAt
        rw [if_pos (by rw [List.length_cons]; omega), ← at_]
        conv => lhs; rw [again]
        rw [List.drop_left' rfl]
        exact congrArg some (List.take_left' rfl)
      rw [Nat.mod_eq_of_lt (by omega), if_pos (by omega), left, bytes]
      dsimp only
      rw [List.length_cons, Nat.mod_eq_of_lt (by omega)]
      congr 1
      omega

/-! ## Strings one after the other -/

variable {strings : List CString} {tail : List (BitVec 8)}

theorem count_strings (fuel : Nat) (front : List (BitVec 8)) (offered : Offered data) (are : ∀ s ∈ strings, IsTxtString s)
    (parts : data = front ++ txtBytes strings ++ tail) (n : Int) :
    txtCountFrom data (fuel + strings.length) front.length n =
      txtCountFrom data fuel (front ++ txtBytes strings).length (n + strings.length) := by
  induction strings generalizing front n with
  | nil =>
      change txtCountFrom data fuel front.length n = txtCountFrom data fuel (front ++ []).length (n + 0)
      rw [List.append_nil, Int.add_zero]
  | cons s later ih =>
      rw [txtBytes_cons] at parts ⊢
      have first : data = front ++ lengthPrefixed s ++ (txtBytes later ++ tail) := by
        rw [parts]
        simp only [List.append_assoc]
      have next : data = (front ++ lengthPrefixed s) ++ txtBytes later ++ tail := by
        rw [first, ← List.append_assoc]
      rw [List.length_cons, ← Nat.add_assoc, count_string offered (are s List.mem_cons_self) first,
        ih _ (fun t inside => are t (List.mem_cons_of_mem _ inside)) next, List.append_assoc]
      congr 1
      omega

theorem create_strings (fuel : Nat) (front : List (BitVec 8)) (txt : List TxtItem) (offered : Offered data) (are : ∀ s ∈ strings, IsTxtString s)
    (parts : data = front ++ txtBytes strings ++ tail) (closed : ∀ s ∈ strings, 61 ∈ s) {num : Nat}
    (room : txt.length + strings.length ≤ num) :
    ∃ items, items.map itemText = (keyedItems strings).map cutText ∧ items.length ≤ strings.length ∧
      txtCreateFrom data num (fuel + strings.length) front.length txt =
        txtCreateFrom data num fuel (front ++ txtBytes strings).length (txt ++ items) := by
  induction strings generalizing front txt with
  | nil =>
      refine ⟨[], rfl, Nat.le_refl _, ?_⟩
      change txtCreateFrom data num fuel front.length txt = txtCreateFrom data num fuel (front ++ []).length (txt ++ [])
      rw [List.append_nil, List.append_nil]
  | cons s later ih =>
      rw [txtBytes_cons] at parts ⊢
      rw [List.length_cons] at room
      have first : data = front ++ lengthPrefixed s ++ (txtBytes later ++ tail) := by
        rw [parts]
        simp only [List.append_assoc]
      have next : data = (front ++ lengthPrefixed s) ++ txtBytes later ++ tail := by
        rw [first, ← List.append_assoc]
      have laterAre := fun t inside => are t (List.mem_cons_of_mem _ inside)
      have laterClosed := fun t inside => closed t (List.mem_cons_of_mem _ inside)
      by_cases key : HasKey s
      · obtain ⟨item, text, step⟩ := create_closed (fuel + later.length) offered (are s List.mem_cons_self) first
          key (closed s List.mem_cons_self) (by omega : txt.length < num)
        obtain ⟨items, texts, few, run⟩ := ih _ (txt ++ [item]) laterAre next laterClosed
          (by rw [List.length_append, List.length_singleton]; omega)
        refine ⟨item :: items, ?_, ?_, ?_⟩
        · rw [keyedItems_cons, if_pos key, List.map_cons, List.map_cons, text, texts]
        · rw [List.length_cons, List.length_cons]
          omega
        · rw [List.length_cons, ← Nat.add_assoc, step, run, List.append_assoc, List.append_assoc, List.singleton_append]
      · have step := create_noKey (fuel + later.length) offered (are s List.mem_cons_self) first key num txt
        obtain ⟨items, texts, few, run⟩ := ih _ txt laterAre next laterClosed (by omega)
        refine ⟨items, ?_, ?_, ?_⟩
        · rw [keyedItems_cons, if_neg key, texts]
        · rw [List.length_cons]
          omega
        · rw [List.length_cons, ← Nat.add_assoc, step, run, List.append_assoc]

/-! ## The ends of the loops -/

theorem count_done (past : data.length ≤ i) (n : Int) : txtCountFrom data (fuel + 1) i n = some n :=
  if_neg (by omega)

theorem create_done (past : data.length ≤ i) (num : Nat) (txt : List TxtItem) :
    txtCreateFrom data num (fuel + 1) i txt = .done txt :=
  if_neg (by omega)

theorem zero_done {junk : List (BitVec 8)} (parts : data = front ++ 0 :: junk) (num : Nat) (n : Int)
    (txt : List TxtItem) :
    txtCountFrom data (fuel + 1) front.length n = some n ∧
      txtCreateFrom data num (fuel + 1) front.length txt = .done txt := by
  have inside : front.length < data.length := by
    rw [parts, List.length_append, List.length_cons]
    omega
  have zero : data[front.length]? = some 0 := by
    rw [parts]
    exact read_byte 0
  refine ⟨(if_pos inside).trans ?_, (if_pos inside).trans ?_⟩
  · rw [zero]
    rfl
  · rw [zero]
    rfl

theorem count_cut (offered : Offered data) {b : BitVec 8} (parts : data = front ++ b :: rest)
    (short : rest.length < b.toNat) (n : Int) : txtCountFrom data (fuel + 1) front.length n = some (-1) := by
  have length : data.length = front.length + (rest.length + 1) := by
    rw [parts, List.length_append, List.length_cons]
  have byte : data[front.length]? = some b := by
    rw [parts]
    exact read_byte b
  unfold Offered at offered
  refine (if_pos (by omega)).trans ?_
  rw [byte]
  dsimp only
  rw [Nat.mod_eq_of_lt (by omega), if_neg (by omega), if_pos (by omega)]

/-! ## The whole -/

theorem strings_short (are : ∀ s ∈ strings, IsTxtString s) : 2 * strings.length ≤ (txtBytes strings).length := by
  induction strings with
  | nil => exact Nat.le_refl _
  | cons s later ih =>
      have some_ := (are s List.mem_cons_self).some_
      have rest := ih fun t inside => are t (List.mem_cons_of_mem _ inside)
      rw [txtBytes_cons, List.length_append, length_lengthPrefixed, List.length_cons]
      omega

theorem count_ended (tail : List (BitVec 8)) (offered : Offered data) (are : ∀ s ∈ strings, IsTxtString s)
    (parts : data = txtBytes strings ++ tail) (ends : tail = [] ∨ ∃ junk, tail = 0 :: junk) (more : data.length ≠ 1) :
    mdnsTxtItemsCountGet data = some (strings.length : Int) := by
  have few := strings_short are
  have length : data.length = (txtBytes strings).length + tail.length := by
    rw [parts, List.length_append]
  unfold mdnsTxtItemsCountGet
  rw [if_neg more]
  obtain ⟨fuel, enough⟩ : ∃ fuel, data.length + 1 = (fuel + 1) + strings.length :=
    ⟨data.length - strings.length, by omega⟩
  have run := count_strings (fuel + 1) [] offered are parts 0
  rw [enough]
  refine run.trans ?_
  rw [List.nil_append, Int.zero_add]
  rcases ends with rfl | ⟨junk, rfl⟩
  · exact count_done (by rw [length]; exact Nat.le_refl _) _
  · exact (zero_done parts 0 _ []).1

theorem count_cut_short (offered : Offered data) (are : ∀ s ∈ strings, IsTxtString s) {b : BitVec 8}
    (parts : data = txtBytes strings ++ b :: rest) (short : rest.length < b.toNat) (more : data.length ≠ 1) :
    mdnsTxtItemsCountGet data = some (-1) := by
  have few := strings_short are
  have length : data.length = (txtBytes strings).length + (rest.length + 1) := by
    rw [parts, List.length_append, List.length_cons]
  unfold mdnsTxtItemsCountGet
  rw [if_neg more]
  obtain ⟨fuel, enough⟩ : ∃ fuel, data.length + 1 = (fuel + 1) + strings.length :=
    ⟨data.length - strings.length, by omega⟩
  have run := count_strings (fuel + 1) [] offered are parts 0
  rw [enough]
  refine run.trans ?_
  rw [List.nil_append]
  exact count_cut offered parts short _

theorem first_open (strings : List CString) : (∀ s ∈ strings, 61 ∈ s) ∨
    ∃ before s after, strings = before ++ s :: after ∧ (∀ t ∈ before, 61 ∈ t) ∧ 61 ∉ s := by
  induction strings with
  | nil => exact Or.inl fun _ none => absurd none List.not_mem_nil
  | cons s later ih =>
      by_cases closed : 61 ∈ s
      · rcases ih with all | ⟨before, t, after, is, front, open_⟩
        · refine Or.inl ?_
          intro t inside
          rcases List.mem_cons.mp inside with rfl | later
          · exact closed
          · exact all t later
        · refine Or.inr ⟨s :: before, t, after, by rw [is]; rfl, ?_, open_⟩
          intro u inside
          rcases List.mem_cons.mp inside with rfl | later
          · exact closed
          · exact front u later
      · exact Or.inr ⟨[], s, later, rfl, fun _ none => absurd none List.not_mem_nil, closed⟩

theorem hasKey_of_open (open_ : 61 ∉ s) : HasKey s := by
  intro first
  cases s with
  | nil => cases first
  | cons b more =>
      rw [List.head?_cons, Option.some_inj] at first
      exact open_ (first ▸ List.mem_cons_self)

theorem keyAndValue_open (open_ : 61 ∉ s) : keyAndValue s = (s, []) := by
  have all : ∀ b ∈ s, decide (b ≠ 61) = true := by
    intro b inside
    refine decide_eq_true ?_
    intro is_
    exact open_ (is_ ▸ inside)
  unfold keyAndValue
  rw [List.takeWhile_eq_self_iff.mpr all, List.dropWhile_eq_nil_iff.mpr all]
  rfl

theorem keyedItems_append (a b : List CString) : keyedItems (a ++ b) = keyedItems a ++ keyedItems b := by
  unfold keyedItems
  rw [List.filter_append, List.map_append]

theorem create_ended (tail : List (BitVec 8)) (offered : Offered data) (are : ∀ s ∈ strings, IsTxtString s)
    (parts : data = txtBytes strings ++ tail) (ends : tail = [] ∨ ∃ junk, tail = 0 :: junk) (closed : KeysAreClosed data)
    (more : data.length ≠ 1) :
    ∃ items, mdnsResultTxtCreate data = .done items ∧ items.map itemText = (keyedItems strings).map cutText := by
  have few := strings_short are
  have length : data.length = (txtBytes strings).length + tail.length := by
    rw [parts, List.length_append]
  unfold mdnsResultTxtCreate
  rw [count_ended tail offered are parts ends more]
  change ∃ items, (if (strings.length : Int) < 0 then _ else _) = _ ∧ _
  rw [if_neg (by omega)]
  by_cases nothing : strings = []
  · rw [nothing]
    exact ⟨[], rfl, rfl⟩
  · have some_ := List.length_pos_iff.mpr nothing
    rw [if_neg (by omega), Int.toNat_natCast]
    rcases first_open strings with all | ⟨before, s, after, is, front, open_⟩
    · obtain ⟨fuel, enough⟩ : ∃ fuel, data.length + 1 = (fuel + 1) + strings.length :=
        ⟨data.length - strings.length, by omega⟩
      obtain ⟨items, texts, _, run⟩ := create_strings (fuel + 1) [] [] offered are parts all
        (Nat.le_of_eq (Nat.zero_add strings.length))
      refine ⟨items, ?_, texts⟩
      rw [enough]
      refine run.trans ?_
      rw [List.nil_append, List.nil_append]
      rcases ends with rfl | ⟨junk, rfl⟩
      · exact create_done (by rw [length]; exact Nat.le_refl _) _ _
      · exact (zero_done parts _ 0 items).2
    · have beforeAre : ∀ t ∈ before, IsTxtString t := fun t inside => are t (by rw [is]; exact List.mem_append_left _ inside)
      have isS : IsTxtString s := are s (by rw [is]; exact List.mem_append_right _ List.mem_cons_self)
      have laterAre : ∀ t ∈ after, IsTxtString t :=
        fun t inside => are t (by rw [is]; exact List.mem_append_right _ (List.mem_cons_of_mem _ inside))
      have around : data = txtBytes before ++ lengthPrefixed s ++ (txtBytes after ++ tail) := by
        rw [parts, is, txtBytes_append, txtBytes_cons]
        simp only [List.append_assoc]
      have last := closed before s _ beforeAre isS around open_
      have fewAfter := strings_short laterAre
      have fewBefore := strings_short beforeAre
      rw [List.length_append] at last
      have size : strings.length = before.length + 1 := by
        rw [is, List.length_append, List.length_cons]
        omega
      have spread : data = [] ++ txtBytes before ++ (lengthPrefixed s ++ (txtBytes after ++ tail)) := by
        rw [around, List.append_assoc]
        rfl
      have sizes := congrArg List.length around
      rw [List.length_append, List.length_append, List.length_append, length_lengthPrefixed] at sizes
      obtain ⟨fuel, enough⟩ : ∃ fuel, data.length + 1 = (fuel + 1 + 1) + before.length :=
        ⟨data.length - 1 - before.length, by omega⟩
      obtain ⟨items, texts, count, run⟩ := create_strings (fuel + 1 + 1) [] [] offered beforeAre
        spread front (by rw [List.length_nil]; omega : _ ≤ strings.length)
      refine ⟨items ++ [⟨cString s, none⟩], ?_, ?_⟩
      · rw [enough]
        refine run.trans ?_
        rw [List.nil_append, List.nil_append, create_open offered isS around (hasKey_of_open open_) open_ (by omega)]
        refine create_done ?_ _ _
        rw [List.length_append, length_lengthPrefixed]
        omega
      · have none_ : after = [] := List.eq_nil_of_length_eq_zero (by omega)
        rw [is, none_, keyedItems_append, keyedItems_cons, if_pos (hasKey_of_open open_), keyAndValue_open open_,
          List.map_append, List.map_append, texts]
        rfl

theorem cutText_keyAndValue (noZero : 0 ∉ s) : cutText (keyAndValue s) = keyAndValue s := by
  have key : 0 ∉ s.takeWhile (· ≠ 61) := fun inside => noZero (List.takeWhile_subset _ inside)
  have value : 0 ∉ (s.dropWhile (· ≠ 61)).drop 1 :=
    fun inside => noZero (List.dropWhile_subset _ (List.mem_of_mem_drop inside))
  unfold cutText keyAndValue
  rw [cString_of_not_mem key, cString_of_not_mem value]

theorem noZero_of_cutText (same : cutText (keyAndValue s) = keyAndValue s) : 0 ∉ s := by
  have key : 0 ∉ (keyAndValue s).1 := cString_eq_self_iff.mp (congrArg Prod.fst same)
  have value : 0 ∉ (keyAndValue s).2 := cString_eq_self_iff.mp (congrArg Prod.snd same)
  by_cases closed : 61 ∈ s
  · obtain ⟨rest, cuts, text⟩ := cut_at closed
    rw [text] at key value
    rw [cuts, List.mem_append, List.mem_cons]
    rintro (first | equals | second)
    · exact key first
    · exact absurd equals (by decide)
    · exact value second
  · rw [keyAndValue_open closed] at key
    exact key

theorem map_cutText_iff : (keyedItems strings).map cutText = keyedItems strings ↔ ∀ s ∈ strings, HasKey s → 0 ∉ s := by
  induction strings with
  | nil => exact iff_of_true rfl fun _ none => absurd none List.not_mem_nil
  | cons s later ih =>
      rw [keyedItems_cons, List.forall_mem_cons]
      by_cases key : HasKey s
      · rw [if_pos key, List.map_cons, List.cons_eq_cons, ih]
        exact and_congr_left' ⟨fun same _ => noZero_of_cutText same, fun noZero => cutText_keyAndValue (noZero key)⟩
      · rw [if_neg key, ih]
        exact (and_iff_right fun has => absurd has key).symm

theorem txtBytes_not_one (are : ∀ s ∈ strings, IsTxtString s) (parts : data = txtBytes strings) : data.length ≠ 1 := by
  have few := strings_short are
  intro one
  rw [parts] at one
  cases strings with
  | nil => cases one
  | cons s later =>
      rw [List.length_cons] at few
      omega

theorem create_one (one : data.length = 1) : mdnsResultTxtCreate data = .done [] := by
  unfold mdnsResultTxtCreate mdnsTxtItemsCountGet
  rw [if_pos one]
  rfl

theorem decodes_of_closed (offered : Offered data)
    (closed : CutShort data ∨ KeysAreClosed data ∧ KeysHaveNoZero data) : DecodesItems data := by
  by_cases one : data.length = 1
  · refine ⟨[], create_one one, ?_⟩
    intro strings are parts
    exact absurd one (txtBytes_not_one are parts)
  · rcases closed with ⟨strings, b, rest, are, parts, short⟩ | ⟨closed, noZero⟩
    · have count := count_cut_short offered are parts short one
      refine ⟨[], ?_, ?_⟩
      · unfold mdnsResultTxtCreate
        rw [count]
        rfl
      · intro others othersAre same
        have other := count_ended [] offered othersAre (by rw [same, List.append_nil]) (Or.inl rfl) one
        rw [count, Option.some_inj] at other
        omega
    · obtain ⟨strings, tail, are, ends, parts⟩ := split_strings data
      have done_ : ∃ items, mdnsResultTxtCreate data = .done items := by
        cases ends with
        | nothing =>
            obtain ⟨items, made, _⟩ := create_ended [] offered are parts (Or.inl rfl) closed one
            exact ⟨items, made⟩
        | zero junk =>
            obtain ⟨items, made, _⟩ := create_ended _ offered are parts (Or.inr ⟨junk, rfl⟩) closed one
            exact ⟨items, made⟩
        | cut b rest short =>
            refine ⟨[], ?_⟩
            unfold mdnsResultTxtCreate
            rw [count_cut_short offered are parts short one]
            rfl
      obtain ⟨items, made⟩ := done_
      refine ⟨items, made, ?_⟩
      intro others othersAre same
      obtain ⟨items', made', texts⟩ := create_ended [] offered othersAre (by rw [same, List.append_nil])
        (Or.inl rfl) closed one
      rw [made] at made'
      cases made'
      rw [texts, map_cutText_iff]
      exact noZero others othersAre same

end

/-! ## How many bytes the items take -/

def itemCost (item : TxtItem) : Nat := item.key.length + (item.value.getD []).length + 2

def itemsCost (items : List TxtItem) : Nat := (items.map itemCost).sum

structure EndsOpen (data : List (BitVec 8)) (item : TxtItem) : Prop where
  value : item.value = none
  open_ : 61 ∉ item.key
  last : ∃ front, data = front ++ item.key

section
variable {data : List (BitVec 8)} {num fuel i : Nat} {txt items : List TxtItem}

inductive CreateStep (data : List (BitVec 8)) (num fuel i : Nat) (txt items : List TxtItem) : Prop where
  | failed (none_ : items = [])
  | ended (same : items = txt)
  | passed (n : Nat) (further : i < n) (inside : n ≤ data.length) (run : txtCreateFrom data num fuel n txt = .done items)
  | taken (item : TxtItem) (n : Nat) (cost : itemCost item ≤ n) (inside : i + n ≤ data.length)
      (run : txtCreateFrom data num fuel (i + n) (txt ++ [item]) = .done items)
  | last (item : TxtItem) (n : Nat) (cost : itemCost item ≤ n) (behind : i + n = data.length + 1)
      (open_ : itemCost item = n → EndsOpen data item)
      (run : txtCreateFrom data num fuel (i + n) (txt ++ [item]) = .done items)

theorem create_step (offered : Offered data) (run : txtCreateFrom data num (fuel + 1) i txt = .done items) :
    CreateStep data num fuel i txt items := by
  unfold Offered at offered
  rw [txtCreateFrom] at run
  by_cases inside : i < data.length
  · rw [if_pos inside, List.getElem?_eq_getElem inside] at run
    dsimp only at run
    generalize data[i].toNat = n at run
    rw [Nat.mod_eq_of_lt (by omega)] at run
    by_cases zero : n = 0
    · rw [if_pos zero] at run
      cases run
      exact .ended rfl
    · rw [if_neg zero] at run
      by_cases long : i + 1 + n > data.length
      · rw [if_pos long] at run
        cases run
        exact .failed rfl
      · rw [if_neg long] at run
        have there : bytesAt data (i + 1) n = some ((data.drop (i + 1)).take n) := if_pos (by omega)
        have length : ((data.drop (i + 1)).take n).length = n := by
          rw [List.length_take, List.length_drop]
          omega
        rw [there] at run
        dsimp only at run
        by_cases key : HasKey ((data.drop (i + 1)).take n)
        · rw [nameLen_key key] at run
          have short := (List.takeWhile_prefix (l := (data.drop (i + 1)).take n)
            (fun c : BitVec 8 => decide (c ≠ 61))).length_le
          generalize name : ((data.drop (i + 1)).take n).takeWhile (fun c => decide (c ≠ 61)) = named at run short
          dsimp only at run
          by_cases overruns : txt.length ≥ num
          · rw [if_pos overruns] at run
            cases run
          · rw [if_neg overruns, Nat.mod_eq_of_lt (by omega)] at run
            have keyLength : (((data.drop (i + 1)).take n).take named.length).length = named.length := by
              rw [List.length_take]
              omega
            by_cases value : n - named.length - 1 > 0
            · have valueThere : bytesAt data (i + 1 + (named.length + 1)) (n - named.length - 1) =
                  some ((data.drop (i + 1 + (named.length + 1))).take (n - named.length - 1)) := if_pos (by omega)
              have valueLength : ((data.drop (i + 1 + (named.length + 1))).take (n - named.length - 1)).length =
                  n - named.length - 1 := by
                rw [List.length_take, List.length_drop]
                omega
              rw [if_pos value, valueThere] at run
              dsimp only at run
              rw [Nat.mod_eq_of_lt (by omega)] at run
              have keyCut := length_cString_le (((data.drop (i + 1)).take n).take named.length)
              have valueCut := length_cString_le ((data.drop (i + 1 + (named.length + 1))).take (n - named.length - 1))
              rw [keyLength] at keyCut
              rw [valueLength] at valueCut
              have cost : itemCost ⟨cString (((data.drop (i + 1)).take n).take named.length),
                  some (cString ((data.drop (i + 1 + (named.length + 1))).take (n - named.length - 1)))⟩ ≤ n + 1 := by
                unfold itemCost
                rw [Option.getD_some]
                dsimp only
                omega
              refine .taken _ (n + 1) cost (by omega) ?_
              have next : i + (n + 1) = i + 1 + (named.length + 1) + (n - named.length - 1) := by omega
              rw [next]
              exact run
            · rw [if_neg value] at run
              have cost : itemCost ⟨cString (((data.drop (i + 1)).take n).take named.length), none⟩ ≤ named.length + 2 := by
                have keyCut := length_cString_le (((data.drop (i + 1)).take n).take named.length)
                rw [keyLength] at keyCut
                exact Nat.add_le_add_right keyCut 2
              have next : i + (named.length + 2) = i + 1 + (named.length + 1) := by omega
              rw [← next] at run
              by_cases within : i + (named.length + 2) ≤ data.length
              · exact .taken _ (named.length + 2) cost within run
              · refine .last _ (named.length + 2) cost (by omega) ?_ run
                intro exact_
                have uncut : cString (((data.drop (i + 1)).take n).take named.length) =
                    ((data.drop (i + 1)).take n).take named.length := by
                  refine (List.takeWhile_prefix _).eq_of_length ?_
                  rw [keyLength]
                  exact Nat.add_right_cancel exact_
                have all : named.length = n := by omega
                have whole : ((data.drop (i + 1)).take n).take named.length = (data.drop (i + 1)).take n := by
                  rw [all]
                  exact List.take_of_length_le (Nat.le_of_eq length)
                have same : named = (data.drop (i + 1)).take n := by
                  rw [← name]
                  exact (List.takeWhile_prefix _).eq_of_length (by rw [name, length, all])
                have rest : (data.drop (i + 1)).take n = data.drop (i + 1) :=
                  List.take_of_length_le (by rw [List.length_drop]; omega)
                have noEquals : 61 ∉ named := by
                  rw [← name]
                  intro inside
                  have other := List.mem_takeWhile_imp (p := fun c : BitVec 8 => decide (c ≠ 61)) inside
                  exact absurd rfl (of_decide_eq_true other)
                refine ⟨rfl, ?_, data.take (i + 1), ?_⟩
                · change 61 ∉ cString (((data.drop (i + 1)).take n).take named.length)
                  rw [uncut, whole, ← same]
                  exact noEquals
                · change data = data.take (i + 1) ++ cString (((data.drop (i + 1)).take n).take named.length)
                  rw [uncut, whole, rest, List.take_append_drop]
        · have none_ : mdnsTxtItemNameGetLen ((data.drop (i + 1)).take n) = none := if_pos (Decidable.not_not.mp key)
          rw [none_, Nat.mod_eq_of_lt (by omega)] at run
          exact .passed _ (by omega) (by omega) run
  · rw [if_neg inside] at run
    cases run
    exact .ended rfl

theorem itemsCost_cons (item : TxtItem) (items : List TxtItem) :
    itemsCost (item :: items) = itemCost item + itemsCost items := List.sum_cons

theorem create_cost (offered : Offered data) (run : txtCreateFrom data num fuel i txt = .done items)
    (bound : i ≤ data.length + 1) :
    items = [] ∨ ∃ more, items = txt ++ more ∧ i + itemsCost more ≤ data.length + 1 ∧
      (i + itemsCost more = data.length + 1 → more ≠ [] → ∃ front last, more = front ++ [last] ∧ EndsOpen data last) := by
  induction fuel generalizing i txt with
  | zero => cases run
  | succ fuel ih =>
      cases create_step offered run with
      | failed none_ => exact Or.inl none_
      | ended same =>
          refine Or.inr ⟨[], by rw [same, List.append_nil], bound, ?_⟩
          intro _ some_
          exact absurd rfl some_
      | passed n further inside run =>
          refine (ih run (by omega)).imp_right ?_
          rintro ⟨more, is, cost, _⟩
          refine ⟨more, is, by omega, ?_⟩
          intro exact_
          omega
      | taken item n cost_ inside run =>
          refine (ih run (by omega)).imp_right ?_
          rintro ⟨more, is, cost, ends⟩
          refine ⟨item :: more, by rw [is, List.append_assoc]; rfl, by rw [itemsCost_cons]; omega, ?_⟩
          rw [itemsCost_cons]
          intro exact_ _
          have some_ : more ≠ [] := by
            intro none_
            rw [none_] at exact_
            change i + (itemCost item + 0) = _ at exact_
            omega
          obtain ⟨front, last, parts, open_⟩ := ends (by omega) some_
          exact ⟨item :: front, last, by rw [parts]; rfl, open_⟩
      | last item n cost_ behind open_ run =>
          refine (ih run (by omega)).imp_right ?_
          rintro ⟨more, is, cost, _⟩
          have none_ : more = [] := by
            cases more with
            | nil => rfl
            | cons next others =>
                rw [itemsCost_cons] at cost
                unfold itemCost at cost
                omega
          rw [none_, List.append_nil] at is
          refine ⟨[item], is, ?_, ?_⟩
          · change i + (itemCost item + 0) ≤ _
            omega
          · intro exact_ _
            refine ⟨[], item, rfl, open_ ?_⟩
            change i + (itemCost item + 0) = _ at exact_
            omega

end

/-! ## Only closed strings come back -/

section
variable {strings : List CString}

def textCost (text : CString × CString) : Nat := text.1.length + text.2.length + 2

def opens (strings : List CString) : Nat := (strings.filter fun s => decide (61 ∉ s)).length

theorem textCost_keyAndValue (s : CString) :
    textCost (keyAndValue s) = (lengthPrefixed s).length + if 61 ∈ s then 0 else 1 := by
  rw [length_lengthPrefixed]
  by_cases closed : 61 ∈ s
  · obtain ⟨value, cuts, text⟩ := cut_at closed
    rw [text, if_pos closed]
    conv => rhs; rw [cuts]
    rw [List.length_append, List.length_cons]
    unfold textCost
    dsimp only
    omega
  · rw [keyAndValue_open closed, if_neg closed]
    rfl

theorem keyed_cost (keyed : ∀ s ∈ strings, HasKey s) :
    ((keyedItems strings).map textCost).sum = (txtBytes strings).length + opens strings := by
  induction strings with
  | nil => rfl
  | cons s later ih =>
      have rest := ih fun t inside => keyed t (List.mem_cons_of_mem _ inside)
      rw [keyedItems_cons, if_pos (keyed s List.mem_cons_self), List.map_cons, List.sum_cons, rest, textCost_keyAndValue,
        txtBytes_cons, List.length_append]
      unfold opens
      by_cases closed : 61 ∈ s
      · rw [if_pos closed, List.filter_cons_of_neg (by rw [decide_eq_true_eq]; exact not_not.mpr closed)]
        omega
      · rw [if_neg closed, List.filter_cons_of_pos (by rw [decide_eq_true_eq]; exact closed), List.length_cons]
        omega

theorem cost_texts (items : List TxtItem) : itemsCost items = ((items.map itemText).map textCost).sum := by
  rw [List.map_map]
  rfl

theorem opens_append (a b : List CString) : opens (a ++ b) = opens a + opens b := by
  unfold opens
  rw [List.filter_append, List.length_append]

theorem opens_one {s : CString} (open_ : 61 ∉ s) : opens [s] = 1 := by
  unfold opens
  rw [List.filter_cons_of_pos (by rw [decide_eq_true_eq]; exact open_)]
  rfl

theorem ends_apart (front other : List (BitVec 8)) {key : CString} (ends : front ++ key = other ++ [61])
    (some_ : key ≠ []) : 61 ∈ key := by
  rcases List.eq_nil_or_concat key with none_ | ⟨init, b, concat⟩
  · exact absurd none_ some_
  · rw [List.concat_eq_append] at concat
    rw [concat, ← List.append_assoc] at ends
    have byte := List.append_inj_right' ends rfl
    cases byte
    rw [concat]
    exact List.mem_append_right _ (List.mem_singleton_self _)

theorem noZero_of_decodes (offered : Offered (txtBytes strings)) (are : ∀ s ∈ strings, IsTxtString s)
    (closed : KeysAreClosed (txtBytes strings)) (decodes : DecodesItems (txtBytes strings)) :
    ∀ s ∈ strings, HasKey s → 0 ∉ s := by
  obtain ⟨items, made, texts⟩ := decodes
  obtain ⟨items', made', cut⟩ := create_ended [] offered are (List.append_nil _).symm (Or.inl rfl) closed
    (txtBytes_not_one are rfl)
  rw [made] at made'
  cases made'
  rw [← map_cutText_iff, ← cut]
  exact texts strings are rfl

theorem closed_of_decodes (offered : Offered (txtBytes strings)) (are : ∀ s ∈ strings, IsTxtString s)
    (keyed : ∀ s ∈ strings, HasKey s) (decodes : DecodesItems (txtBytes strings)) : KeysAreClosed (txtBytes strings) := by
  obtain ⟨items, made, texts⟩ := decodes
  have texts := texts strings are rfl
  intro before s rest front isS parts open_
  obtain ⟨after, is, rfl⟩ := txtBytes_split are front isS parts
  rcases List.eq_nil_or_concat after with rfl | ⟨middle, t, concat⟩
  · exact Nat.zero_le _
  · rw [List.concat_eq_append] at concat
    exfalso
    -- the items take all bytes of the strings, and one more for every string without `=`
    have some_ : strings ≠ [] := by
      rw [is]
      exact List.append_ne_nil_of_right_ne_nil _ (List.cons_ne_nil _ _)
    have run : txtCreateFrom (txtBytes strings) strings.length ((txtBytes strings).length + 1) 0 [] = .done items := by
      have positive := List.length_pos_iff.mpr some_
      unfold mdnsResultTxtCreate at made
      rw [count_ended [] offered are (List.append_nil _).symm (Or.inl rfl) (txtBytes_not_one are rfl)] at made
      change (if (strings.length : Int) < 0 then _ else _) = _ at made
      rw [if_neg (by omega), if_neg (by omega), Int.toNat_natCast] at made
      exact made
    have cost := keyed_cost keyed
    rw [← texts, ← cost_texts] at cost
    have opened : 0 < opens strings := by
      unfold opens
      refine List.length_pos_of_mem (a := s) (List.mem_filter.mpr ⟨?_, decide_eq_true open_⟩)
      rw [is]
      exact List.mem_append_right _ List.mem_cons_self
    rcases create_cost offered run (Nat.zero_le _) with none_ | ⟨more, same, bound, ends⟩
    · rw [none_] at cost
      change 0 = _ at cost
      omega
    · rw [List.nil_append] at same
      rw [← same] at bound ends
      have nonempty : items ≠ [] := by
        intro none_
        rw [none_] at cost
        change 0 = _ at cost
        omega
      obtain ⟨others, last, all, ending⟩ := ends (by omega) nonempty
      have parted : strings = (before ++ s :: middle) ++ [t] := by
        rw [is, concat, List.append_assoc]
        rfl
      have inside : t ∈ strings := by
        rw [parted]
        exact List.mem_append_right _ (List.mem_singleton_self _)
      have closed : 61 ∈ t := by
        by_contra another
        have both : opens strings = opens before + (1 + opens middle) + 1 := by
          rw [parted, opens_append, opens_append, opens_one another]
          congr 2
          exact (opens_append [s] middle).trans (by rw [opens_one open_])
        omega
      obtain ⟨value, cuts, text⟩ := cut_at closed
      rw [all, List.map_append, parted, keyedItems_append, keyedItems_cons, if_pos (keyed t inside), text] at texts
      have same : [itemText last] = [(t.takeWhile (· ≠ 61), value)] := List.append_inj_right' texts rfl
      obtain ⟨pair, _⟩ := List.cons.inj same
      have lastText : itemText last = (last.key, []) := by
        unfold itemText
        rw [ending.value]
        rfl
      rw [lastText] at pair
      obtain ⟨key, none_⟩ := Prod.mk.inj pair
      rw [← key, ← none_] at cuts
      obtain ⟨from_, data⟩ := ending.last
      refine ending.open_ (ends_apart from_ (txtBytes (before ++ s :: middle) ++
        BitVec.ofNat 8 t.length :: last.key) ?_ ?_)
      · rw [← data]
        conv => lhs; rw [parted]
        rw [txtBytes_append, List.append_assoc]
        congr 1
        change BitVec.ofNat 8 t.length :: (t ++ []) = BitVec.ofNat 8 t.length :: (last.key ++ [61])
        rw [List.append_nil]
        exact congrArg (BitVec.ofNat 8 t.length :: ·) cuts
      · intro empty
        rw [empty] at cuts
        refine keyed t inside ?_
        rw [cuts]
        rfl

end

end EspFirmware.Proof.Mdns
