import Intcode.Proofs.JsonText

/-! # Texts that are one JSON value

Reading a value uses up its tokens and no others (`Json.parse?_eq_some_iff`). The brackets of a
value are balanced, and what it opens first it closes with its last token (`Json.balanced_tokens`),
so no value ends in the tokens of another. The line feed behind the brace of an object in lines is
in no token, so what stands before that brace is cut into tokens by itself (`Json.Scans.split`). It
follows that nothing but blanks may stand before such an object (`Json.parse?_eq_some_iff_blank`).
-/

namespace Intcode.Json

open Token

variable {c : Char} {text rest : List Char} {token : Token} {tokens : List Token}

/-! ## Reading uses up the tokens of a value -/

theorem moreItemTokens_eq {items : List Json} (some : items ≠ []) :
    moreItemTokens items = .comma :: itemTokens items := by
  cases items with
  | nil => exact absurd rfl some
  | cons item items => rfl

theorem moreMemberTokens_eq {members : List (List Char × Json)} (some : members ≠ []) :
    moreMemberTokens members = .comma :: memberTokens members := by
  cases members with
  | nil => exact absurd rfl some
  | cons member members => rfl

mutual

theorem eq_of_takeValue {fuel : Nat} {front rest : List Token} {value : Json}
    (taken : takeValue fuel front = some (value, rest)) : front = value.tokens ++ rest := by
  match fuel with
  | 0 => cases taken
  | fuel + 1 =>
      unfold takeValue at taken
      split at taken
      case h_1 | h_2 | h_3 | h_4 => cases taken; rfl
      case h_5 | h_7 => cases taken; rfl
      case h_6 =>
          obtain ⟨⟨items, behind⟩, others, same⟩ := Option.map_eq_some_iff.mp taken
          cases same
          rw [(eq_of_takeItems others).2]
          rfl
      case h_8 =>
          obtain ⟨⟨members, behind⟩, others, same⟩ := Option.map_eq_some_iff.mp taken
          cases same
          rw [(eq_of_takeMembers others).2]
          rfl
      case h_9 => cases taken
termination_by fuel

theorem eq_of_takeItems {fuel : Nat} {front rest : List Token} {items : List Json}
    (taken : takeItems fuel front = some (items, rest)) :
    items ≠ [] ∧ front = itemTokens items ++ rest := by
  match fuel with
  | 0 => cases taken
  | fuel + 1 =>
      unfold takeItems at taken
      split at taken
      · rename_i item behind first
        obtain ⟨⟨others, last⟩, later, same⟩ := Option.map_eq_some_iff.mp taken
        cases same
        obtain ⟨some, split⟩ := eq_of_takeItems later
        refine ⟨List.cons_ne_nil _ _, ?_⟩
        rw [eq_of_takeValue first, split, itemTokens, moreItemTokens_eq some, List.append_assoc]
        rfl
      · rename_i item behind first
        cases taken
        refine ⟨List.cons_ne_nil _ _, ?_⟩
        rw [eq_of_takeValue first, itemTokens, moreItemTokens, List.append_assoc]
        rfl
      · cases taken
termination_by fuel

theorem eq_of_takeMembers {fuel : Nat} {front rest : List Token}
    {members : List (List Char × Json)} (taken : takeMembers fuel front = some (members, rest)) :
    members ≠ [] ∧ front = memberTokens members ++ rest := by
  match fuel with
  | 0 => cases taken
  | fuel + 1 =>
      unfold takeMembers at taken
      split at taken
      · split at taken
        · rename_i value behind first
          obtain ⟨⟨others, last⟩, later, same⟩ := Option.map_eq_some_iff.mp taken
          cases same
          obtain ⟨some, split⟩ := eq_of_takeMembers later
          refine ⟨List.cons_ne_nil _ _, ?_⟩
          rw [eq_of_takeValue first, split, memberTokens, moreMemberTokens_eq some]
          simp only [List.cons_append, List.append_assoc]
        · rename_i value behind first
          cases taken
          refine ⟨List.cons_ne_nil _ _, ?_⟩
          rw [eq_of_takeValue first, memberTokens, moreMemberTokens]
          simp only [List.cons_append, List.append_assoc, List.nil_append]
        · cases taken
      · cases taken
termination_by fuel

end

theorem ofTokens?_eq_some_iff {value : Json} :
    ofTokens? tokens = some value ↔ tokens = value.tokens := by
  constructor
  · intro read
    unfold ofTokens? at read
    split at read
    · rename_i taken
      cases read
      rw [eq_of_takeValue taken, List.append_nil]
    · cases read
  · rintro rfl
    exact ofTokens?_tokens value

/-- **A text is a value** if it is made of the tokens of the value. -/
theorem parse?_eq_some_iff {text : String} {value : Json} :
    parse? text = some value ↔ Scans text.toList value.tokens := by
  rw [parse?, Option.bind_eq_some_iff]
  constructor
  · rintro ⟨tokens, scanned, read⟩
    rw [← ofTokens?_eq_some_iff.mp read]
    exact scan_eq_some_iff.mp scanned
  · exact fun scans => ⟨_, scan_eq_some_iff.mpr scans, ofTokens?_tokens value⟩

/-! ## Brackets -/

/-- How much deeper the nesting is behind a token. -/
def Token.rise : Token → Int
  | .openBracket | .openBrace => 1
  | .closeBracket | .closeBrace => -1
  | _ => 0

def rises : List Token → Int
  | [] => 0
  | token :: tokens => token.rise + rises tokens

theorem rises_append (front back : List Token) :
    rises (front ++ back) = rises front + rises back := by
  induction front with
  | nil => rw [List.nil_append, rises, Int.zero_add]
  | cons token front ih => rw [List.cons_append, rises, rises, ih, Int.add_assoc]

/-- Tokens that close what they open and nothing else. -/
structure Balanced (tokens : List Token) : Prop where
  total : rises tokens = 0
  later : ∀ {front back : List Token}, tokens = front ++ back → rises back ≤ 0

/-- Tokens that close one bracket more than they open, and that one with the last of them. -/
structure Closing (tokens : List Token) : Prop where
  total : rises tokens = -1
  later : ∀ {front back : List Token}, tokens = front ++ back → back ≠ [] → rises back ≤ -1

theorem balanced_nil : Balanced [] where
  total := rfl
  later split := by
    rw [(List.append_eq_nil_iff.mp split.symm).2]
    exact Int.le_refl 0

theorem Balanced.cons {token : Token} (balanced : Balanced tokens) (flat : token.rise = 0) :
    Balanced (token :: tokens) where
  total := by rw [rises, flat, balanced.total]; rfl
  later {front back} split := by
    rcases List.cons_eq_append_iff.mp split with ⟨rfl, whole⟩ | ⟨behind, rfl, same⟩
    · rw [whole, rises, flat, balanced.total]
      exact Int.le_refl 0
    · exact balanced.later same

theorem Closing.opened {token : Token} (closing : Closing tokens) (opens : token.rise = 1) :
    Balanced (token :: tokens) where
  total := by rw [rises, opens, closing.total]; rfl
  later {front back} split := by
    rcases List.cons_eq_append_iff.mp split with ⟨rfl, whole⟩ | ⟨behind, rfl, same⟩
    · rw [whole, rises, opens, closing.total]
      exact Int.le_refl 0
    · by_cases nothing : back = []
      · rw [nothing]
        exact Int.le_refl 0
      · have := closing.later same nothing
        omega

theorem closing_singleton {token : Token} (closes : token.rise = -1) : Closing [token] where
  total := by rw [rises, closes]; rfl
  later {front back} split some := by
    rcases List.cons_eq_append_iff.mp split with ⟨rfl, whole⟩ | ⟨behind, rfl, same⟩
    · rw [whole, rises, closes]
      exact Int.le_refl (-1)
    · exact absurd (List.append_eq_nil_iff.mp same.symm).2 some

theorem Balanced.closing {front back : List Token} (balanced : Balanced front)
    (closing : Closing back) : Closing (front ++ back) where
  total := by rw [rises_append, balanced.total, closing.total]; rfl
  later {first last} split some := by
    rcases List.append_eq_append_iff.mp split with ⟨middle, rfl, same⟩ | ⟨middle, same, rfl⟩
    · exact closing.later same some
    · have front := balanced.later same
      have back := closing.total
      rw [rises_append]
      omega

mutual

/-- The brackets of a value are balanced. -/
theorem balanced_tokens (value : Json) : Balanced value.tokens := by
  match value with
  | .null | .boolean _ | .number _ | .string _ => exact balanced_nil.cons rfl
  | .array items => exact (closing_itemTokens items).opened rfl
  | .object members => exact (closing_memberTokens members).opened rfl

theorem closing_itemTokens (items : List Json) : Closing (itemTokens items) := by
  match items with
  | [] => exact closing_singleton rfl
  | item :: items =>
      rw [itemTokens]
      exact (balanced_tokens item).closing (closing_moreItemTokens items)

theorem closing_moreItemTokens (items : List Json) : Closing (moreItemTokens items) := by
  match items with
  | [] => exact closing_singleton rfl
  | item :: items =>
      rw [moreItemTokens]
      exact ((balanced_tokens item).cons rfl).closing (closing_moreItemTokens items)

theorem closing_memberTokens (members : List (List Char × Json)) :
    Closing (memberTokens members) := by
  match members with
  | [] => exact closing_singleton rfl
  | (key, value) :: members =>
      rw [memberTokens]
      exact (((balanced_tokens value).cons rfl).cons rfl).closing (closing_moreMemberTokens members)

theorem closing_moreMemberTokens (members : List (List Char × Json)) :
    Closing (moreMemberTokens members) := by
  match members with
  | [] => exact closing_singleton rfl
  | (key, value) :: members =>
      rw [moreMemberTokens]
      exact ((((balanced_tokens value).cons rfl).cons rfl).cons rfl).closing
        (closing_moreMemberTokens members)

end

theorem tokens_ne_nil (value : Json) : value.tokens ≠ [] := by
  obtain ⟨token, rest, split, _⟩ := exists_tokens_eq_cons value
  rw [split]
  exact List.cons_ne_nil _ _

/-- No value ends in the tokens of another. -/
theorem eq_nil_of_tokens_eq {whole value : Json} {front : List Token}
    (split : whole.tokens = front ++ value.tokens) : front = [] := by
  have some := tokens_ne_nil value
  have total := (balanced_tokens value).total
  have inside {token : Token} {tokens : List Token} (closing : Closing tokens)
      (split : token :: tokens = front ++ value.tokens) : front = [] := by
    rcases List.cons_eq_append_iff.mp split with ⟨nothing, _⟩ | ⟨behind, _, same⟩
    · exact nothing
    · have := closing.later same some
      omega
  match whole with
  | .null | .boolean _ | .number _ | .string _ =>
      rcases List.cons_eq_append_iff.mp split with ⟨nothing, _⟩ | ⟨behind, _, same⟩
      · exact nothing
      · exact absurd (List.append_eq_nil_iff.mp same.symm).2 some
  | .array items => exact inside (closing_itemTokens items) split
  | .object members => exact inside (closing_memberTokens members) split

/-! ## A brace that begins a line -/

theorem newLine_notMem_takeString {literal : List Char}
    (taken : takeString text = some (literal, rest)) : '\n' ∉ literal := by
  fun_induction takeString text generalizing literal rest with
  | case1 | case4 | case6 | case7 => cases taken
  | case2 => cases taken; exact List.not_mem_nil
  | case3 a b c d behind hex ih =>
      obtain ⟨⟨inner, after⟩, found, same⟩ := Option.map_eq_some_iff.mp taken
      cases same
      have noHex : ¬ isHex '\n' = true := by decide
      simp only [Bool.and_eq_true] at hex
      obtain ⟨⟨⟨first, second⟩, third⟩, fourth⟩ := hex
      simp only [List.mem_cons, not_or]
      exact ⟨by decide, by decide, fun same => noHex (same ▸ first),
        fun same => noHex (same ▸ second), fun same => noHex (same ▸ third),
        fun same => noHex (same ▸ fourth), ih found⟩
  | case5 escape behind _ known ih =>
      obtain ⟨⟨inner, after⟩, found, same⟩ := Option.map_eq_some_iff.mp taken
      cases same
      have noEscape : ¬ isEscape '\n' = true := by decide
      simp only [List.mem_cons, not_or]
      exact ⟨by decide, fun same => noEscape (same ▸ known), ih found⟩
  | case8 c behind _ _ _ allowed ih =>
      obtain ⟨⟨inner, after⟩, found, same⟩ := Option.map_eq_some_iff.mp taken
      cases same
      simp only [List.mem_cons, not_or]
      refine ⟨?_, ih found⟩
      rintro rfl
      exact allowed rfl

theorem notMem_takeWhile (outside : inNumber c = false) : c ∉ text.takeWhile inNumber :=
  fun among => absurd (List.all_eq_true.mp List.all_takeWhile c among) (by rw [outside]; decide)

/-- A line feed is in no token. -/
theorem Token.Leads.newLine_notMem (leads : Leads text token rest) : '\n' ∉ token.spelling := by
  cases leads with
  | fixed among =>
      have none : ∀ token ∈ fixedTokens, '\n' ∉ token.spelling := by decide
      exact none token among
  | string taken =>
      have inside := newLine_notMem_takeString taken
      simp [spelling, quoted, inside]
  | number => exact notMem_takeWhile (by decide)

/-- A token that ends in an opening brace is nothing else. -/
theorem Token.Leads.eq_nil_of_spelling_eq (leads : Leads text token rest) {front : List Char}
    (split : token.spelling = front ++ ['\x7b']) : front = [] := by
  have last : token.spelling.getLast? = some '\x7b' := by rw [split, List.getLast?_concat]
  cases leads with
  | fixed among =>
      have alone : ∀ token ∈ fixedTokens, token.spelling.getLast? = some '\x7b' →
          token.spelling = ['\x7b'] := by decide
      exact List.append_left_eq_self.mp (split.symm.trans (alone token among last))
  | string taken =>
      rw [spelling, quoted, List.getLast?_concat] at last
      cases last
  | number => exact absurd (List.mem_of_getLast? last) (notMem_takeWhile (by decide))

/-- An opening brace at the end of a line is a token of its own, and what stands before it is cut
into tokens by itself. -/
theorem Scans.split {front back : List Char}
    (scans : Scans (front ++ '\x7b' :: '\n' :: back) tokens) :
    ∃ first last, tokens = first ++ last ∧ Scans ('\x7b' :: '\n' :: back) last ∧
      (first = [] → ∀ c ∈ front, Token.isBlank c = true) := by
  generalize whole : front ++ '\x7b' :: '\n' :: back = text at scans
  induction scans generalizing front with
  | nothing => cases front <;> cases whole
  | @blank c rest tokens isBlank scans ih =>
      cases front with
      | nil =>
          cases whole
          cases isBlank
      | cons first front =>
          obtain ⟨rfl, same⟩ := List.cons.inj whole
          obtain ⟨before, behind, split, onward, blank⟩ := ih same
          exact ⟨before, behind, split, onward, fun nothing =>
            List.forall_mem_cons.mpr ⟨isBlank, blank nothing⟩⟩
  | @token text rest token tokens found scans ih =>
      cases front with
      | nil =>
          subst whole
          exact ⟨[], token :: tokens, rfl, .token found scans, fun _ => nofun⟩
      | cons c front =>
          have leads := leads_of_next? found
          rw [leads.split.1] at whole
          rcases List.append_eq_append_iff.mp whole with
            ⟨middle, same, behind⟩ | ⟨middle, same, behind⟩
          · -- The token would reach the brace, and past it the line feed.
            match middle with
            | [] =>
                subst behind
                exact ⟨[token], tokens, rfl, scans, nofun⟩
            | [brace] =>
                cases behind
                cases leads.eq_nil_of_spelling_eq same
            | brace :: feed :: others =>
                cases behind
                refine absurd ?_ leads.newLine_notMem
                rw [same]
                simp
          · obtain ⟨before, after, split, onward, _⟩ := ih behind.symm
            exact ⟨token :: before, after, congrArg (token :: ·) split, onward, nofun⟩

theorem Scans.unique {others : List Token} (scans : Scans text tokens)
    (again : Scans text others) : tokens = others :=
  Option.some.inj ((scan_eq_some_iff.mpr scans).symm.trans (scan_eq_some_iff.mpr again))

theorem Scans.behind_blank {front : List Char} (scans : Scans text tokens)
    (blank : ∀ c ∈ front, Token.isBlank c = true) : Scans (front ++ text) tokens := by
  induction front with
  | nil => exact scans
  | cons c front ih =>
      obtain ⟨isBlank, others⟩ := List.forall_mem_cons.mp blank
      exact .blank isBlank (ih others)

theorem eq_of_tokens_eq {first second : Json} (same : first.tokens = second.tokens) :
    first = second :=
  Option.some.inj ((ofTokens?_tokens first).symm.trans (same ▸ ofTokens?_tokens second))

theorem scans_prettyLine {value : Json} (proper : value.IsProper) :
    Scans (value.pretty 0 ++ ['\n']) value.tokens := by
  have scans : Scans (value.pretty 0 ++ ['\n']) (value.tokens ++ []) :=
    scans_pretty 0 value proper (apart_cons (by decide)) (.blank rfl .nothing)
  rwa [List.append_nil] at scans

/-- **An object behind something else.** A text that ends in the lines of an object is a value only
if nothing but blanks stands before it, and then it is that object. -/
theorem parse?_eq_some_iff_blank {text : String} {front : List Char} {member : List Char × Json}
    {members : List (List Char × Json)} {found : Json}
    (written : text.toList = front ++ ((object (member :: members)).pretty 0 ++ ['\n']))
    (proper : (object (member :: members)).IsProper) :
    parse? text = some found ↔
      (∀ c ∈ front, Token.isBlank c = true) ∧ found = .object (member :: members) := by
  have document := scans_prettyLine proper
  rw [parse?_eq_some_iff, written]
  constructor
  · intro scans
    obtain ⟨back, begins⟩ : ∃ back, (object (member :: members)).pretty 0 ++ ['\n'] =
        '\x7b' :: '\n' :: back := by
      rw [pretty]
      exact ⟨_, rfl⟩
    rw [begins] at scans document
    obtain ⟨first, last, split, onward, blank⟩ := scans.split
    cases onward.unique document
    cases eq_nil_of_tokens_eq split
    exact ⟨blank rfl, eq_of_tokens_eq split⟩
  · rintro ⟨blank, rfl⟩
    exact document.behind_blank blank

end Intcode.Json
