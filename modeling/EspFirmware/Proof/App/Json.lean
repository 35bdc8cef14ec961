import EspFirmware.Spec.Message

namespace EspFirmware.Proof.App
open EspFirmware.App EspFirmware.Spec EspFirmware.Lib EspFirmware.Lib.Parser

variable {strtod : Strtod}

theorem refines_parseLiteral (text : List Byte) : Refines (parseLiteral text) (parseLiteral text) := by
  induction text with
  | nil => exact refines_pure ()
  | cons c rest ih => exact refines_next.bind fun d => refines_ite _ ih refines_reject

theorem refines_parseNumber : Refines (parseNumber strtod) (parseNumber strtod) := by
  refine (refines_lookWhile isNumberChar 63).bind fun token => ?_
  cases strtod token with
  | none => exact refines_reject
  | some read => exact (refines_advance _).bind fun _ => refines_pure _

theorem refines_scanString {n m : Nat} (le : n ≤ m) : Refines (scanString n) (scanString m) := by
  induction n generalizing m with
  | zero => exact refines_undecided _
  | succ n ih =>
      cases m with
      | zero => omega
      | succ m =>
          have rest := ih (Nat.le_of_succ_le_succ le)
          refine refines_next.bind fun c => ?_
          refine refines_ite _ (refines_pure _) (refines_ite _ ?_ ?_)
          · exact refines_next.bind fun d => rest.bind fun text => refines_pure _
          · exact rest.bind fun text => refines_pure _

theorem refines_parseString {n m : Nat} (le : n ≤ m) : Refines (parseString n) (parseString m) := by
  refine refines_next.bind fun c => refines_ite _ ?_ refines_reject
  refine (refines_scanString le).bind fun raw => ?_
  cases unescape raw with
  | none => exact refines_reject
  | some text => exact refines_pure text

/-- More steps and more input do not change what the parser has decided. One induction on the
steps carries values, elements and members at once. -/
theorem refines_parse (n : Nat) : ∀ m, n ≤ m → ∀ depth,
    Refines (parseValue strtod depth n) (parseValue strtod depth m) ∧
    Refines (parseElements strtod depth n) (parseElements strtod depth m) ∧
    Refines (parseMembers strtod depth n) (parseMembers strtod depth m) := by
  induction n with
  | zero => exact fun m _ depth => ⟨refines_undecided _, refines_undecided _, refines_undecided _⟩
  | succ n ih =>
      intro m le depth
      cases m with
      | zero => omega
      | succ m =>
          have le' : n ≤ m := Nat.le_of_succ_le_succ le
          have space : Refines skipWhitespace skipWhitespace := refines_skipWhile isSpace
          have literal (text : List Byte) (value : Json) :
              Refines (do parseLiteral text; pure value) (do parseLiteral text; pure value) :=
            (refines_parseLiteral text).bind fun _ => refines_pure value
          refine ⟨?_, ?_, ?_⟩
          · unfold parseValue
            refine refines_peek.bind fun c => ?_
            refine refines_ite _ (literal _ _) (refines_ite _ (literal _ _)
              (refines_ite _ (literal _ _) (refines_ite _ ?_ (refines_ite _ refines_parseNumber
                (refines_ite _ ?_ (refines_ite _ ?_ refines_reject))))))
            · exact (refines_parseString le').bind fun text => refines_pure _
            · refine refines_ite _ refines_reject ?_
              refine refines_next.bind fun _ => space.bind fun _ => refines_peek.bind fun d => ?_
              refine refines_ite _ (refines_next.bind fun _ => refines_pure _) ?_
              exact (ih m le' (depth + 1)).2.1.bind fun elements => refines_pure _
            · refine refines_ite _ refines_reject ?_
              refine refines_next.bind fun _ => space.bind fun _ => refines_peek.bind fun d => ?_
              refine refines_ite _ (refines_next.bind fun _ => refines_pure _) ?_
              exact (ih m le' (depth + 1)).2.2.bind fun members => refines_pure _
          · unfold parseElements
            refine (ih m le' depth).1.bind fun element => space.bind fun _ =>
              refines_next.bind fun c => refines_ite _ ?_ (refines_ite _ (refines_pure _) refines_reject)
            exact space.bind fun _ => (ih m le' depth).2.1.bind fun rest => refines_pure _
          · unfold parseMembers
            refine (refines_parseString le').bind fun name => space.bind fun _ =>
              refines_next.bind fun colon => refines_ite _ ?_ refines_reject
            refine space.bind fun _ => (ih m le' depth).1.bind fun value => space.bind fun _ =>
              refines_next.bind fun c => refines_ite _ ?_ (refines_ite _ (refines_pure _) refines_reject)
            exact space.bind fun _ => (ih m le' depth).2.2.bind fun rest => refines_pure _

theorem skipUtf8Bom_other {input : List Byte} (begun : ¬ input <+: [0xEF, 0xBB, 0xBF])
    (marked : ¬ [0xEF, 0xBB, 0xBF] <+: input) : skipUtf8Bom input = .done () input := by
  unfold skipUtf8Bom
  split
  · exact absurd ⟨_, rfl⟩ marked
  · exact absurd List.nil_prefix begun
  · exact absurd ⟨[0xBB, 0xBF], rfl⟩ begun
  · exact absurd ⟨[0xBF], rfl⟩ begun
  · exact absurd List.prefix_rfl begun
  · exact absurd ⟨_, rfl⟩ marked
  · rfl

theorem refines_skipUtf8Bom : Refines skipUtf8Bom skipUtf8Bom := by
  intro input tail
  by_cases begun : input <+: [0xEF, 0xBB, 0xBF]
  · have undecided : skipUtf8Bom input = .more := by
      rw [List.prefix_iff_eq_take.mp begun]
      rcases input.length with _ | _ | _ | _ | n <;> rfl
    rw [undecided]
    exact ⟨nofun, nofun⟩
  by_cases marked : [0xEF, 0xBB, 0xBF] <+: input
  · obtain ⟨rest, rfl⟩ := marked
    rcases rest with _ | ⟨c, _ | ⟨d, rest⟩⟩
    · exact ⟨nofun, nofun⟩
    · exact ⟨nofun, nofun⟩
    · refine ⟨fun a left same => ?_, nofun⟩
      cases same
      rfl
  · have longer : ¬ [0xEF, 0xBB, 0xBF] <+: input ++ tail := fun front =>
      (List.prefix_or_prefix_of_prefix front (List.prefix_append input tail)).elim marked begun
    have still : ¬ input ++ tail <+: [0xEF, 0xBB, 0xBF] := fun front =>
      begun ((List.prefix_append input tail).trans front)
    rw [skipUtf8Bom_other begun marked, skipUtf8Bom_other still longer]
    refine ⟨fun a rest same => ?_, nofun⟩
    cases same
    rfl

theorem refines_parseText {n m : Nat} (le : n ≤ m) :
    Refines (parseText strtod n) (parseText strtod m) :=
  refines_skipUtf8Bom.bind fun _ => (refines_skipWhile isSpace).bind fun _ =>
    (refines_parse n m le 0).1

/-! ## A payload that ends too early

What the parser has not decided by the end of a text cannot become an object by the terminator. -/

abbrev Never {α : Type} : α → List Byte → Prop := fun _ _ => False

def Dangling (value : Json) (rest : List Byte) : Prop :=
  (∃ v, value = .number v) ∧ ∃ c left, rest = c :: left ∧ (c = 0 ∧ left = [] ∨ isNumberChar c)

theorem atEnd_skipWhitespace : AtEnd 0 Never skipWhitespace := atEnd_skipWhile rfl

theorem atEnd_parseLiteral (text : List Byte) (noNul : 0 ∉ text) :
    AtEnd 0 Never (parseLiteral text) := by
  induction text with
  | nil => exact atEnd_pure _ ()
  | cons c rest ih =>
      have differs : (0 : Byte) ≠ c := fun same => noNul (same ▸ List.mem_cons_self)
      refine atEnd_next.bind refines_next ?_ fun d => .ite _ ?_ (atEnd_reject _)
      · rintro d left ⟨rfl, rfl⟩ b rest' result
        rw [if_neg differs] at result
        cases result
      · exact ih fun member => noNul (List.mem_cons_of_mem _ member)

theorem atEnd_parseNumber : AtEnd 0 Dangling (parseNumber strtod) := by
  refine .bind_of_reached (refines_lookWhile _ _) (atEnd_lookWhile (by decide) 63) ?_ ?_
  · rintro token rest ⟨rfl, kept⟩ value left result
    cases read : strtod token with
    | none => rw [read] at result; cases result
    | some number =>
        obtain ⟨number, used⟩ := number
        rw [read] at result
        change Parser.bind (Parser.advance (min used token.length)) _ _ = _ at result
        have fits : min used token.length ≤ (token ++ [(0 : Byte)]).length := by simp
        simp only [Parser.bind, Parser.advance, if_pos fits] at result
        cases result
        refine ⟨⟨_, rfl⟩, ?_⟩
        rw [List.drop_append_of_le_length (Nat.min_le_right _ _)]
        cases dropped : token.drop (min used token.length) with
        | nil => exact ⟨0, [], rfl, .inl ⟨rfl, rfl⟩⟩
        | cons c left =>
            have member : c ∈ token := List.mem_of_mem_drop (dropped ▸ List.mem_cons_self)
            exact ⟨c, left ++ [0], rfl, .inr (kept c member)⟩
  · intro input token rest read undecided
    obtain ⟨rfl, start⟩ := lookWhile_rest read
    have fits := start.length_le
    cases value : strtod token with
    | none => rw [value] at undecided; cases undecided
    | some number =>
        rw [value] at undecided
        change Parser.bind (Parser.advance (min number.2 token.length)) _ _ = _ at undecided
        simp only [Parser.bind, Parser.advance, if_pos (show min number.2 token.length ≤ rest.length by omega)]
          at undecided
        cases undecided

theorem atEnd_scanString (fuel : Nat) : AtEnd 0 Never (scanString fuel) := by
  induction fuel with
  | zero => exact atEnd_undecided _
  | succ fuel ih =>
      have onEmpty : scanString fuel [] = .more := by cases fuel <;> rfl
      have more {f : List Byte → Parser Byte (List Byte)} : (scanString fuel >>= f) [] = .more := by
        change Parser.bind (scanString fuel) f [] = .more
        simp only [Parser.bind, onEmpty]
      have rest (f : List Byte → List Byte) :
          AtEnd 0 Never (do let rest ← scanString fuel; pure (f rest)) :=
        ih.bind (refines_scanString le_rfl) (fun _ _ => False.elim) fun _ => atEnd_pure _ _
      refine atEnd_next.bind refines_next ?_ fun c => .ite _ (atEnd_pure _ _) (.ite _ ?_ (rest _))
      · rintro c left ⟨rfl, rfl⟩ b rest' result
        rw [if_neg (by decide), if_neg (by decide), more] at result
        cases result
      · refine atEnd_next.bind refines_next ?_ fun _ => rest _
        rintro d left ⟨rfl, rfl⟩ b rest' result
        rw [more] at result
        cases result

theorem atEnd_parseString (fuel : Nat) : AtEnd 0 Never (parseString fuel) := by
  refine atEnd_next.bind refines_next ?_ fun c => .ite _ ?_ (atEnd_reject _)
  · rintro c left ⟨rfl, rfl⟩ b rest' result
    rw [if_neg (by decide)] at result
    cases result
  · refine (atEnd_scanString fuel).bind (refines_scanString le_rfl) (fun _ _ => False.elim) fun raw => ?_
    cases unescape raw with
    | none => exact atEnd_reject _
    | some text => exact atEnd_pure _ _

theorem not_done_after_dangling {α : Type} {value : Json} {rest : List Byte} {f : Byte → Parser Byte α}
    (dangling : Dangling value rest)
    (refuses : ∀ c left, isNumberChar c → ∀ a rest', f c left ≠ .done a rest') (a : α)
    (rest' : List Byte) : (do skipWhitespace; let c ← next; f c : Parser Byte α) rest ≠ .done a rest' := by
  obtain ⟨-, c, left, rfl, ⟨rfl, rfl⟩ | number⟩ := dangling
  · exact nofun
  · have visible : isSpace c = false := by revert number; revert c; decide
    change Parser.bind skipWhitespace _ _ ≠ _
    simp only [Parser.bind, skipWhitespace, skipWhile, visible]
    exact refuses c left number a rest'

theorem parseValue_nul (depth n : Nat) (value : Json) (rest : List Byte) :
    parseValue strtod depth n [0] ≠ .done value rest := by
  cases n with
  | zero => exact nofun
  | succ n =>
      unfold parseValue
      exact nofun

theorem parseElements_nul (depth n : Nat) (elements : List Json) (rest : List Byte) :
    parseElements strtod depth n [0] ≠ .done elements rest := by
  cases n with
  | zero => exact nofun
  | succ n =>
      unfold parseElements
      change Parser.bind (parseValue strtod depth n) _ _ ≠ _
      unfold Parser.bind
      split
      · exact fun _ => parseValue_nul _ _ _ _ (by assumption)
      · exact nofun
      · exact nofun

theorem parseMembers_nul (depth n : Nat) (members : List (List Byte × Json)) (rest : List Byte) :
    parseMembers strtod depth n [0] ≠ .done members rest := by
  cases n with
  | zero => exact nofun
  | succ n => unfold parseMembers; exact nofun

theorem atEnd_brackets {α : Type} {bracket : Byte} {p : Parser Byte α} (empty : Json)
    (f : α → Json) (notNul : (0 : Byte) ≠ bracket) (stable : Refines p p) (never : AtEnd 0 Never p)
    (refuses : ∀ a rest, p [0] ≠ .done a rest) :
    AtEnd 0 Never (do
      let _ ← next
      skipWhitespace
      let d ← peek
      if d = bracket then do let _ ← next; pure empty
      else do let a ← p; pure (f a)) := by
  have inside : AtEnd 0 Never (do let a ← p; pure (f a)) :=
    never.bind stable (fun _ _ => False.elim) fun _ => atEnd_pure _ _
  refine atEnd_next.bind refines_next ?_ fun _ => ?_
  · rintro _ _ ⟨rfl, rfl⟩ b rest' result
    cases result
  refine atEnd_skipWhitespace.bind (refines_skipWhile isSpace) (fun _ _ => False.elim) fun _ => ?_
  refine .bind_of_reached refines_peek atEnd_peek ?_ ?_
  · rintro d rest ⟨rfl, rfl⟩ b rest' result
    rw [if_neg notNul] at result
    change Parser.bind p _ _ = _ at result
    unfold Parser.bind at result
    split at result
    · exact refuses _ _ (by assumption)
    · contradiction
    · contradiction
  · intro input d rest peeked undecided b rest' result
    cases input with
    | nil => contradiction
    | cons c left =>
        cases peeked
        by_cases isBracket : d = bracket
        · rw [if_pos isBracket] at undecided
          cases undecided
        · rw [if_neg isBracket] at undecided result
          exact inside _ undecided b rest' result

theorem atEnd_separator {α : Type} {bracket : Byte} {p : Parser Byte α} (last : α) (f : α → α)
    (notNul : (0 : Byte) ≠ bracket) (stable : Refines p p) (never : AtEnd 0 Never p) :
    AtEnd 0 Never (do
      skipWhitespace
      let c ← next
      if c = 44 then do skipWhitespace; let rest ← p; pure (f rest)
      else if c = bracket then pure last
      else reject) := by
  have space : Refines skipWhitespace skipWhitespace := refines_skipWhile isSpace
  refine atEnd_skipWhitespace.bind space (fun _ _ => False.elim) fun _ => ?_
  refine atEnd_next.bind refines_next ?_ fun c => .ite _ ?_ (.ite _ (atEnd_pure _ _) (atEnd_reject _))
  · rintro c rest ⟨rfl, rfl⟩ b rest' result
    rw [if_neg (by decide), if_neg notNul] at result
    cases result
  · refine atEnd_skipWhitespace.bind space (fun _ _ => False.elim) fun _ => ?_
    exact never.bind stable (fun _ _ => False.elim) fun _ => atEnd_pure _ _

theorem atEnd_parse (n : Nat) : ∀ depth,
    AtEnd 0 Dangling (parseValue strtod depth n) ∧
    AtEnd 0 Never (parseElements strtod depth n) ∧
    AtEnd 0 Never (parseMembers strtod depth n) := by
  induction n with
  | zero => exact fun depth => ⟨atEnd_undecided _, atEnd_undecided _, atEnd_undecided _⟩
  | succ n ih =>
      intro depth
      have no {α : Type} {p : Parser Byte α} {allowed : α → List Byte → Prop}
          (never : AtEnd 0 Never p) : AtEnd 0 allowed p := never.mono fun _ _ => False.elim
      have space : Refines skipWhitespace skipWhitespace := refines_skipWhile isSpace
      have stable (depth : Nat) :
          Refines (parseValue strtod depth n) (parseValue strtod depth n) ∧
          Refines (parseElements strtod depth n) (parseElements strtod depth n) ∧
          Refines (parseMembers strtod depth n) (parseMembers strtod depth n) :=
        refines_parse n n le_rfl depth
      have literal (text : List Byte) (value : Json) (noNul : 0 ∉ text) :
          AtEnd 0 Never (do parseLiteral text; pure value) :=
        (atEnd_parseLiteral text noNul).bind (refines_parseLiteral text) (fun _ _ => False.elim)
          fun _ => atEnd_pure _ _
      have notSeparator (c : Byte) : isNumberChar c → c ≠ 44 ∧ c ≠ 93 ∧ c ≠ 125 := by
        revert c; decide
      refine ⟨?_, ?_, ?_⟩
      · have atNul : ∀ value rest, parseValue strtod depth (n + 1) [0] ≠ .done value rest :=
          parseValue_nul depth (n + 1)
        unfold parseValue at atNul ⊢
        refine atEnd_peek.bind refines_peek ?_ fun c => ?_
        · rintro c left ⟨rfl, rfl⟩ b rest' result
          exact (atNul b rest' result).elim
        · refine .ite _ (no (literal _ _ (by decide))) (.ite _ (no (literal _ _ (by decide)))
            (.ite _ (no (literal _ _ (by decide))) (.ite _ (no ?_) (.ite _ atEnd_parseNumber
              (.ite _ (.ite _ (atEnd_reject _) (no ?_)) (.ite _ (.ite _ (atEnd_reject _) (no ?_))
                (atEnd_reject _)))))))
          · exact (atEnd_parseString n).bind (refines_parseString le_rfl) (fun _ _ => False.elim)
              fun _ => atEnd_pure _ _
          · exact atEnd_brackets _ _ (by decide) (stable (depth + 1)).2.1 (ih (depth + 1)).2.1
              (parseElements_nul _ _)
          · exact atEnd_brackets _ _ (by decide) (stable (depth + 1)).2.2 (ih (depth + 1)).2.2
              (parseMembers_nul _ _)
      · unfold parseElements
        refine (ih depth).1.bind (stable depth).1 (fun a rest dangling b rest' => ?_) fun element => ?_
        · refine fun done => (not_done_after_dangling dangling ?_ b rest' done).elim
          intro c left number a rest'
          rw [if_neg (notSeparator c number).1, if_neg (notSeparator c number).2.1]
          exact nofun
        · exact atEnd_separator _ _ (by decide) (stable depth).2.1 (ih depth).2.1
      · unfold parseMembers
        refine (atEnd_parseString n).bind (refines_parseString le_rfl) (fun _ _ => False.elim)
          fun name => ?_
        refine atEnd_skipWhitespace.bind space (fun _ _ => False.elim) fun _ => ?_
        refine atEnd_next.bind refines_next ?_ fun colon => .ite _ ?_ (atEnd_reject _)
        · rintro colon rest ⟨rfl, rfl⟩ b rest' result
          rw [if_neg (by decide)] at result
          cases result
        refine atEnd_skipWhitespace.bind space (fun _ _ => False.elim) fun _ => ?_
        refine (ih depth).1.bind (stable depth).1 (fun a rest dangling b rest' => ?_) fun value => ?_
        · refine fun done => (not_done_after_dangling dangling ?_ b rest' done).elim
          intro c left number a rest'
          rw [if_neg (notSeparator c number).1, if_neg (notSeparator c number).2.2]
          exact nofun
        · exact atEnd_separator _ _ (by decide) (stable depth).2.2 (ih depth).2.2

theorem bind_pure_done {α β : Type} {p : Parser Byte α} {f : α → β} {input rest : List Byte} {b : β}
    (result : (do let a ← p; pure (f a) : Parser Byte β) input = .done b rest) : ∃ a, b = f a := by
  change Parser.bind p _ _ = _ at result
  unfold Parser.bind at result
  split at result
  · cases result
    exact ⟨_, rfl⟩
  · contradiction
  · contradiction

theorem parseNumber_done {input rest : List Byte} {value : Json}
    (result : parseNumber strtod input = .done value rest) : ∃ v, value = .number v := by
  change Parser.bind (lookWhile isNumberChar 63) _ _ = _ at result
  unfold Parser.bind at result
  cases looked : lookWhile isNumberChar 63 input with
  | done token left =>
      rw [looked] at result
      dsimp only at result
      cases read : strtod token with
      | none => rw [read] at result; cases result
      | some number =>
          rw [read] at result
          obtain ⟨_, rfl⟩ := bind_pure_done result
          exact ⟨_, rfl⟩
  | fail => rw [looked] at result; contradiction
  | more => rw [looked] at result; contradiction

theorem parseValue_single (depth n : Nat) (c : Byte) (value : Json) (rest : List Byte)
    (result : parseValue strtod depth n [c, 0] = .done value rest) : value.isObject = false := by
  cases n with
  | zero => cases result
  | succ n =>
      unfold parseValue at result
      change Parser.bind peek _ _ = _ at result
      simp only [Parser.bind, peek] at result
      split at result
      · obtain ⟨_, rfl⟩ := bind_pure_done result; rfl
      split at result
      · obtain ⟨_, rfl⟩ := bind_pure_done result; rfl
      split at result
      · obtain ⟨_, rfl⟩ := bind_pure_done result; rfl
      split at result
      · obtain ⟨_, rfl⟩ := bind_pure_done result; rfl
      split at result
      · obtain ⟨_, rfl⟩ := parseNumber_done result; rfl
      split at result
      · split at result
        · contradiction
        · cases result
      split at result
      · split at result
        · contradiction
        · cases result
      · contradiction

theorem atEnd_skipUtf8Bom : AtEnd 0 (fun _ rest => rest = [0] ∨ (∃ c, rest = [c, 0]) ∨
    rest = [0xEF, 0xBB, 0]) skipUtf8Bom := by
  intro input undecided a rest result
  unfold skipUtf8Bom at undecided
  split at undecided
  · contradiction
  · cases result; exact .inl rfl
  · cases result; exact .inr (.inl ⟨_, rfl⟩)
  · cases result; exact .inr (.inr rfl)
  · cases result
  · cases result; exact .inr (.inl ⟨_, rfl⟩)
  · contradiction

theorem atEnd_parseText (n : Nat) :
    AtEnd 0 (fun value _ => value.isObject = false) (parseText strtod n) := by
  refine atEnd_skipUtf8Bom.bind refines_skipUtf8Bom ?_ fun _ => ?_
  · intro _ rest shape value rest' result
    change Parser.bind skipWhitespace _ _ = _ at result
    rcases shape with rfl | ⟨c, rfl⟩ | rfl
    · cases result
    · simp only [Parser.bind, skipWhitespace, skipWhile] at result
      split at result
      · rename_i split_eq
        split at split_eq
        · cases split_eq
        · cases split_eq
          exact parseValue_single 0 n c value rest' result
      · contradiction
      · contradiction
    · cases n <;> cases result
  · refine atEnd_skipWhitespace.bind (refines_skipWhile isSpace) (fun _ _ => False.elim) fun _ => ?_
    refine (atEnd_parse n 0).1.mono fun value rest dangling => ?_
    obtain ⟨⟨v, rfl⟩, -⟩ := dangling
    rfl

theorem cJSONParse_of_undecided {payload : List Byte}
    (undecided : parseText strtod (textFuel payload) payload = .more) (json : Json)
    (parsed : cJSONParse strtod payload = some json) : json.isObject = false := by
  unfold cJSONParse at parsed
  split at parsed
  · rename_i result
    cases parsed
    exact atEnd_parseText _ payload undecided _ _ result
  · contradiction

end EspFirmware.Proof.App
