import Intcode.Json.Parse

/-! # JSON written and read again

The tokens of a text follow one another with blanks between them (`Json.Scans`), and scanning a text
finds them (`Json.scan_eq_some_iff`). -/

namespace Intcode.Json

/-! ## The tokens of a value -/

mutual

/-- The tokens of which a value is made. -/
def tokens : Json → List Token
  | .null => [.null]
  | .boolean value => [.boolean value]
  | .number written => [.number written]
  | .string literal => [.string literal]
  | .array items => .openBracket :: itemTokens items
  | .object members => .openBrace :: memberTokens members

def itemTokens : List Json → List Token
  | [] => [.closeBracket]
  | item :: items => tokens item ++ moreItemTokens items

def moreItemTokens : List Json → List Token
  | [] => [.closeBracket]
  | item :: items => .comma :: tokens item ++ moreItemTokens items

def memberTokens : List (List Char × Json) → List Token
  | [] => [.closeBrace]
  | (key, value) :: members => .string key :: .colon :: tokens value ++ moreMemberTokens members

def moreMemberTokens : List (List Char × Json) → List Token
  | [] => [.closeBrace]
  | (key, value) :: members =>
      .comma :: .string key :: .colon :: tokens value ++ moreMemberTokens members

end

variable {c : Char} {text rest : List Char} {token : Token} {tokens more : List Token}

/-! ## Tokens -/

namespace Token

/-- The characters of a token. -/
def spelling : Token → List Char
  | .openBracket => ['[']
  | .closeBracket => [']']
  | .openBrace => ['\x7b']
  | .closeBrace => ['\x7d']
  | .comma => [',']
  | .colon => [':']
  | .null => ['n', 'u', 'l', 'l']
  | .boolean true => ['t', 'r', 'u', 'e']
  | .boolean false => ['f', 'a', 'l', 's', 'e']
  | .number written => written
  | .string literal => quoted literal

theorem takeString_split {literal : List Char} (taken : takeString text = some (literal, rest)) :
    text = literal ++ '"' :: rest := by
  fun_induction takeString text generalizing literal rest with
  | case1 | case4 | case6 | case7 => cases taken
  | case2 => cases taken; rfl
  | case3 | case5 | case8 =>
      rename_i ih
      obtain ⟨⟨inner, behind⟩, found, same⟩ := Option.map_eq_some_iff.mp taken
      cases same
      rw [ih found]
      rfl

theorem isNumber_nil : isNumber [] = false := by
  decide

/-- The tokens that are always spelt the same. -/
def fixedTokens : List Token :=
  [.openBracket, .closeBracket, .openBrace, .closeBrace, .comma, .colon, .null, .boolean true,
    .boolean false]

/-- What a text can begin with: a fixed token, a string or a number. -/
inductive Leads : List Char → Token → List Char → Prop
  | fixed {text rest : List Char} {token : Token} (among : token ∈ fixedTokens)
      (split : text = token.spelling ++ rest) : Leads text token rest
  | string {text literal rest : List Char} (taken : takeString text = some (literal, rest)) :
      Leads ('"' :: text) (.string literal) rest
  | number {text : List Char} (isNumber : isNumber (text.takeWhile inNumber) = true) :
      Leads text (.number (text.takeWhile inNumber)) (text.dropWhile inNumber)

theorem leads_of_next? (found : next? text = some (token, rest)) : Leads text token rest := by
  unfold next? at found
  split at found
  case h_10 =>
      obtain ⟨⟨literal, behind⟩, taken, same⟩ := Option.map_eq_some_iff.mp found
      cases same
      exact .string taken
  case h_11 =>
      split at found
      · rename_i isNumber
        cases found
        exact .number isNumber
      · cases found
  all_goals
    cases found
    exact .fixed (by decide) rfl

/-- A token is cut off the front of a text, and it has characters. -/
theorem Leads.split (leads : Leads text token rest) :
    text = token.spelling ++ rest ∧ token.spelling ≠ [] := by
  cases leads with
  | fixed among split =>
      have some : ∀ token ∈ fixedTokens, token.spelling ≠ [] := by decide
      exact ⟨split, some token among⟩
  | string taken =>
      refine ⟨?_, List.cons_ne_nil _ _⟩
      rw [takeString_split taken]
      simp [spelling, quoted]
  | number isNumber =>
      refine ⟨List.takeWhile_append_dropWhile.symm, fun nothing => ?_⟩
      rw [show text.takeWhile inNumber = [] from nothing, isNumber_nil] at isNumber
      cases isNumber

theorem next?_of_blank (isBlank : isBlank c = true) : next? (c :: rest) = none := by
  simp only [Token.isBlank, Bool.or_eq_true, decide_eq_true_eq] at isBlank
  rcases isBlank with ((rfl | rfl) | rfl) | rfl <;> rfl

end Token

/-! ## Scanning -/

/-- From its front a text is cut into tokens, and the blanks between them are left out. -/
inductive Scans : List Char → List Token → Prop
  | nothing : Scans [] []
  | blank {c : Char} {rest : List Char} {tokens : List Token} (isBlank : Token.isBlank c = true)
      (scans : Scans rest tokens) : Scans (c :: rest) tokens
  | token {text rest : List Char} {token : Token} {tokens : List Token}
      (next : Token.next? text = some (token, rest)) (scans : Scans rest tokens) :
      Scans text (token :: tokens)

namespace Token

theorem scanFor_nil (fuel : Nat) : scanFor fuel [] = some [] := by
  cases fuel <;> rfl

theorem scanFor_of_blank (isBlank : Token.isBlank c = true) (fuel : Nat) :
    scanFor fuel (c :: rest) = scanFor fuel rest := by
  have skipped : (c :: rest).dropWhile Token.isBlank = rest.dropWhile Token.isBlank :=
    List.dropWhile_cons_of_pos isBlank
  cases fuel with
  | zero => unfold scanFor; rw [skipped]
  | succ fuel => unfold scanFor; rw [skipped]

/-- A token costs one of the fuel. -/
theorem scanFor_of_next? (found : next? text = some (token, rest)) (fuel : Nat) :
    scanFor (fuel + 1) text = (scanFor fuel rest).map (token :: ·) := by
  cases text with
  | nil => cases found
  | cons c back =>
      cases isBlank : Token.isBlank c with
      | true =>
          rw [next?_of_blank isBlank] at found
          cases found
      | false =>
          have kept : (c :: back).dropWhile Token.isBlank = c :: back :=
            List.dropWhile_cons_of_neg (by rw [isBlank]; decide)
          conv => lhs; unfold scanFor
          simp only [kept, found]

end Token

theorem Scans.of_dropWhile (scans : Scans (text.dropWhile Token.isBlank) tokens) :
    Scans text tokens := by
  induction text with
  | nil => exact scans
  | cons c rest ih =>
      cases isBlank : Token.isBlank c with
      | true =>
          rw [List.dropWhile_cons_of_pos isBlank] at scans
          exact .blank isBlank (ih scans)
      | false => rwa [List.dropWhile_cons_of_neg (by rw [isBlank]; decide)] at scans

theorem scans_of_scanFor {fuel : Nat} (found : Token.scanFor fuel text = some tokens) :
    Scans text tokens := by
  apply Scans.of_dropWhile
  fun_induction Token.scanFor fuel text generalizing tokens with
  | case1 fuel text skipped =>
      cases found
      rw [skipped]
      exact .nothing
  | case2 | case3 => cases found
  | case4 text fuel token rest _ next ih =>
      obtain ⟨others, later, same⟩ := Option.map_eq_some_iff.mp found
      cases same
      exact .token next (.of_dropWhile (ih later))

theorem Scans.scanFor_eq (scans : Scans text tokens) {fuel : Nat} (enough : text.length ≤ fuel) :
    Token.scanFor fuel text = some tokens := by
  induction scans generalizing fuel with
  | nothing => exact Token.scanFor_nil fuel
  | blank isBlank _ ih =>
      rw [Token.scanFor_of_blank isBlank]
      exact ih (Nat.le_of_succ_le enough)
  | @token text rest token tokens next _ ih =>
      obtain ⟨split, some⟩ := (Token.leads_of_next? next).split
      have shorter : rest.length < text.length := by
        rw [split, List.length_append]
        have := List.length_pos_iff.mpr some
        omega
      obtain ⟨fuel, rfl⟩ : ∃ less, fuel = less + 1 := ⟨fuel - 1, by omega⟩
      rw [Token.scanFor_of_next? next, ih (by omega)]
      rfl

/-- Scanning finds the tokens of a text. -/
theorem scan_eq_some_iff : Token.scan text = some tokens ↔ Scans text tokens :=
  ⟨scans_of_scanFor, fun scans => scans.scanFor_eq (Nat.le_refl _)⟩

/-! ## Reading a value from its tokens -/

section

variable {fuel : Nat} {item value : Json} {items : List Json} {key : List Char}
  {members : List (List Char × Json)} {front back : List Token}

theorem exists_tokens_eq_cons (value : Json) :
    ∃ token rest, value.tokens = token :: rest ∧ token ≠ .closeBracket := by
  cases value <;> exact ⟨_, _, rfl, nofun⟩

theorem takeValue_of_items (first : token ≠ .closeBracket) :
    takeValue (fuel + 1) (.openBracket :: token :: more) =
      (takeItems fuel (token :: more)).map fun (items, rest) => (.array items, rest) := by
  cases token with
  | closeBracket => exact absurd rfl first
  | _ => rfl

theorem takeItems_last (taken : takeValue fuel front = some (item, .closeBracket :: back)) :
    takeItems (fuel + 1) front = some ([item], back) := by
  simp only [takeItems, taken]

theorem takeItems_more {rest : List Token}
    (taken : takeValue fuel front = some (item, .comma :: back))
    (others : takeItems fuel back = some (items, rest)) :
    takeItems (fuel + 1) front = some (item :: items, rest) := by
  simp only [takeItems, taken, others, Option.map_some]

theorem takeMembers_last (taken : takeValue fuel front = some (value, .closeBrace :: back)) :
    takeMembers (fuel + 1) (.string key :: .colon :: front) = some ([(key, value)], back) := by
  simp only [takeMembers, taken]

theorem takeMembers_more {rest : List Token}
    (taken : takeValue fuel front = some (value, .comma :: back))
    (others : takeMembers fuel back = some (members, rest)) :
    takeMembers (fuel + 1) (.string key :: .colon :: front) =
      some ((key, value) :: members, rest) := by
  simp only [takeMembers, taken, others, Option.map_some]

end

mutual

/-- A value is read from its tokens, whatever follows them. Two calls at most go by for a token. -/
theorem takeValue_tokens (value : Json) (rest : List Token) (fuel : Nat)
    (enough : 2 * value.tokens.length ≤ fuel) :
    takeValue fuel (value.tokens ++ rest) = some (value, rest) := by
  match value, fuel with
  | .null, fuel + 1 | .boolean _, fuel + 1 | .number _, fuel + 1 | .string _, fuel + 1 => rfl
  | .array [], fuel + 1 | .object [], fuel + 1 => rfl
  | .array (item :: items), fuel + 1 =>
      obtain ⟨token, more, first, noEnd⟩ := exists_tokens_eq_cons item
      simp only [Json.tokens, itemTokens, List.length_cons] at enough
      have taken := takeItems_tokens item items rest fuel (by omega)
      simp only [Json.tokens, itemTokens, first, List.cons_append] at taken ⊢
      rw [takeValue_of_items noEnd, taken]
      rfl
  | .object ((key, value) :: members), fuel + 1 =>
      simp only [Json.tokens, memberTokens, List.length_cons, List.cons_append] at enough
      have taken := takeMembers_tokens key value members rest fuel (by omega)
      simp only [Json.tokens, memberTokens, List.cons_append]
      simp only [takeValue, taken, Option.map_some]
termination_by fuel

theorem takeItems_tokens (item : Json) (items : List Json) (rest : List Token) (fuel : Nat)
    (enough : 2 * (item.tokens ++ moreItemTokens items).length ≤ fuel + 1) :
    takeItems fuel (item.tokens ++ moreItemTokens items ++ rest) = some (item :: items, rest) := by
  obtain ⟨token, more, first, _⟩ := exists_tokens_eq_cons item
  have positive : 0 < item.tokens.length := by rw [first]; exact Nat.succ_pos _
  rw [List.length_append] at enough
  rw [List.append_assoc]
  obtain ⟨less, rfl⟩ : ∃ less, fuel = less + 1 := ⟨fuel - 1, by omega⟩
  match items with
  | [] =>
      simp only [moreItemTokens, List.length_singleton] at enough
      exact takeItems_last (takeValue_tokens item _ _ (by omega))
  | next :: items =>
      simp only [moreItemTokens, List.length_cons, List.cons_append] at enough
      exact takeItems_more (takeValue_tokens item _ _ (by omega))
        (takeItems_tokens next items rest _ (by omega))
termination_by fuel

theorem takeMembers_tokens (key : List Char) (value : Json) (members : List (List Char × Json))
    (rest : List Token) (fuel : Nat)
    (enough : 2 * (value.tokens ++ moreMemberTokens members).length ≤ fuel + 1) :
    takeMembers fuel
        (.string key :: .colon :: (value.tokens ++ moreMemberTokens members ++ rest)) =
      some ((key, value) :: members, rest) := by
  obtain ⟨token, more, first, _⟩ := exists_tokens_eq_cons value
  have positive : 0 < value.tokens.length := by rw [first]; exact Nat.succ_pos _
  rw [List.length_append] at enough
  rw [List.append_assoc]
  obtain ⟨less, rfl⟩ : ∃ less, fuel = less + 1 := ⟨fuel - 1, by omega⟩
  match members with
  | [] =>
      simp only [moreMemberTokens, List.length_singleton] at enough
      exact takeMembers_last (takeValue_tokens value _ _ (by omega))
  | (next, other) :: members =>
      simp only [moreMemberTokens, List.length_cons, List.cons_append] at enough
      exact takeMembers_more (takeValue_tokens value _ _ (by omega))
        (takeMembers_tokens next other members rest _ (by omega))
termination_by fuel

end

/-- **Values are read back from their tokens.** -/
theorem ofTokens?_tokens (value : Json) : ofTokens? value.tokens = some value := by
  have taken := takeValue_tokens value [] (2 * value.tokens.length + 1) (by omega)
  rw [List.append_nil] at taken
  simp only [ofTokens?, taken]

/-! ## Reading back what was written -/

namespace Token

/-- Nothing at the front could belong to a number. -/
def Apart (text : List Char) : Prop :=
  ∀ c ∈ text.head?, inNumber c = false

/-- A number or a string that is written as one. -/
def IsProper : Token → Prop
  | .number written => isNumber written = true ∧ ∀ c ∈ written, inNumber c = true
  | .string literal => takeString (literal ++ ['"']) = some (literal, [])
  | _ => True

/-- A character that stands for itself in a string. -/
def IsPlain (c : Char) : Prop :=
  c ≠ '"' ∧ c ≠ '\\' ∧ ¬ c < ' '

instance : DecidablePred IsPlain := fun _ => inferInstanceAs (Decidable (_ ∧ _))

theorem takeString_of_plain (plain : IsPlain c) :
    takeString (c :: text) =
      (takeString text).map fun (literal, rest) => (c :: literal, rest) := by
  obtain ⟨noQuote, noEscape, noControl⟩ := plain
  rw [takeString]
  · simp only [noEscape, noControl, decide_false, Bool.or_self, Bool.false_eq_true, if_false]
  · exact noQuote
  · exact fun _ _ _ _ _ same _ => noEscape same
  · exact fun _ _ same _ => noEscape same

theorem takeString_append {literal : List Char} (more : List Char)
    (taken : takeString text = some (literal, rest)) :
    takeString (text ++ more) = some (literal, rest ++ more) := by
  fun_induction takeString text generalizing literal rest with
  | case1 | case4 | case6 | case7 => cases taken
  | case2 => cases taken; rfl
  | case3 a b c d behind hex ih =>
      obtain ⟨⟨inner, after⟩, found, same⟩ := Option.map_eq_some_iff.mp taken
      cases same
      simp only [List.cons_append, takeString, if_pos hex, ih found, Option.map_some]
  | case5 escape behind _ known ih =>
      obtain ⟨⟨inner, after⟩, found, same⟩ := Option.map_eq_some_iff.mp taken
      cases same
      rw [List.cons_append, List.cons_append, takeString, if_pos known, ih found]
      · rfl
      · rintro _ _ _ _ _ rfl
        exact absurd known (by decide)
  | case8 c behind noQuote _ noEscape allowed ih =>
      obtain ⟨⟨inner, after⟩, found, same⟩ := Option.map_eq_some_iff.mp taken
      cases same
      simp only [Bool.or_eq_true, decide_eq_true_eq, not_or] at allowed
      rw [List.cons_append, takeString_of_plain ⟨noQuote, allowed⟩, ih found]
      rfl

theorem next?_of_isNumber (isNumber : isNumber (text.takeWhile inNumber) = true) :
    next? text = some (.number (text.takeWhile inNumber), text.dropWhile inNumber) := by
  unfold next?
  split
  case h_11 => rw [if_pos isNumber]
  all_goals
    rw [List.takeWhile_cons_of_neg (by decide), isNumber_nil] at isNumber
    cases isNumber

theorem next?_number {written : List Char} (proper : IsProper (.number written))
    (apart : Apart rest) : next? (written ++ rest) = some (.number written, rest) := by
  obtain ⟨isNumber, inside⟩ := proper
  have stops : rest.takeWhile inNumber = [] ∧ rest.dropWhile inNumber = rest := by
    cases rest with
    | nil => exact ⟨rfl, rfl⟩
    | cons c behind =>
        have outside := apart c rfl
        simp [outside]
  have whole : (written ++ rest).takeWhile inNumber = written := by
    rw [List.takeWhile_append_of_pos inside, stops.1, List.append_nil]
  have rest_eq : (written ++ rest).dropWhile inNumber = rest := by
    rw [List.dropWhile_append_of_pos inside, stops.2]
  rw [next?_of_isNumber (by rw [whole]; exact isNumber), whole, rest_eq]

theorem next?_string {literal : List Char} (proper : IsProper (.string literal)) :
    next? (quoted literal ++ rest) = some (.string literal, rest) := by
  have taken := takeString_append rest (show takeString _ = _ from proper)
  simp only [quoted, List.cons_append, next?, taken, Option.map_some, List.nil_append]

theorem apart_cons (outside : inNumber c = false) : Apart (c :: rest) := by
  rintro _ ⟨⟩
  exact outside

end Token

section

open Token

theorem apart_compactMoreItems (items : List Json) (rest : List Char) :
    Apart (compactMoreItems items ++ rest) := by
  cases items <;> exact apart_cons (by decide)

theorem apart_compactMoreMembers (members : List (List Char × Json)) (rest : List Char) :
    Apart (compactMoreMembers members ++ rest) := by
  cases members <;> exact apart_cons (by decide)

mutual

/-- Compact text is made of the tokens of its value. -/
theorem scans_compact {rest : List Char} {more : List Token} (value : Json)
    (proper : ∀ token ∈ value.tokens, token.IsProper) (apart : Apart rest)
    (scans : Scans rest more) : Scans (value.compact ++ rest) (value.tokens ++ more) := by
  match value with
  | .null => exact .token rfl scans
  | .boolean true => exact .token rfl scans
  | .boolean false => exact .token rfl scans
  | .number written =>
      rw [compact]
      exact .token (next?_number (proper _ (List.mem_singleton_self _)) apart) scans
  | .string literal =>
      rw [compact]
      exact .token (next?_string (proper _ (List.mem_singleton_self _))) scans
  | .array items =>
      simp only [Json.tokens, List.forall_mem_cons] at proper
      exact .token rfl (scans_compactItems items proper.2 scans)
  | .object members =>
      simp only [Json.tokens, List.forall_mem_cons] at proper
      exact .token rfl (scans_compactMembers members proper.2 scans)

theorem scans_compactItems {rest : List Char} {more : List Token} (items : List Json)
    (proper : ∀ token ∈ itemTokens items, token.IsProper) (scans : Scans rest more) :
    Scans (compactItems items ++ rest) (itemTokens items ++ more) := by
  match items with
  | [] => exact .token rfl scans
  | item :: items =>
      simp only [itemTokens, List.forall_mem_append] at proper
      simp only [compactItems, itemTokens, List.append_assoc]
      exact scans_compact item proper.1 (apart_compactMoreItems items rest)
        (scans_compactMoreItems items proper.2 scans)

theorem scans_compactMoreItems {rest : List Char} {more : List Token} (items : List Json)
    (proper : ∀ token ∈ moreItemTokens items, token.IsProper) (scans : Scans rest more) :
    Scans (compactMoreItems items ++ rest) (moreItemTokens items ++ more) := by
  match items with
  | [] => exact .token rfl scans
  | item :: items =>
      simp only [moreItemTokens, List.forall_mem_append, List.forall_mem_cons] at proper
      simp only [compactMoreItems, moreItemTokens, List.append_assoc, List.cons_append]
      exact .token rfl (scans_compact item proper.1.2 (apart_compactMoreItems items rest)
        (scans_compactMoreItems items proper.2 scans))

theorem scans_compactMembers {rest : List Char} {more : List Token}
    (members : List (List Char × Json))
    (proper : ∀ token ∈ memberTokens members, token.IsProper) (scans : Scans rest more) :
    Scans (compactMembers members ++ rest) (memberTokens members ++ more) := by
  match members with
  | [] => exact .token rfl scans
  | (key, value) :: members =>
      simp only [memberTokens, List.forall_mem_append, List.forall_mem_cons] at proper
      simp only [compactMembers, memberTokens, List.append_assoc, List.cons_append]
      exact .token (next?_string proper.1.1) (.token rfl (scans_compact value proper.1.2.2
        (apart_compactMoreMembers members rest)
        (scans_compactMoreMembers members proper.2 scans)))

theorem scans_compactMoreMembers {rest : List Char} {more : List Token}
    (members : List (List Char × Json))
    (proper : ∀ token ∈ moreMemberTokens members, token.IsProper) (scans : Scans rest more) :
    Scans (compactMoreMembers members ++ rest) (moreMemberTokens members ++ more) := by
  match members with
  | [] => exact .token rfl scans
  | (key, value) :: members =>
      simp only [moreMemberTokens, List.forall_mem_append, List.forall_mem_cons] at proper
      simp only [compactMoreMembers, moreMemberTokens, List.append_assoc, List.cons_append]
      exact .token rfl (.token (next?_string proper.1.2.1) (.token rfl (scans_compact value
        proper.1.2.2.2 (apart_compactMoreMembers members rest)
        (scans_compactMoreMembers members proper.2 scans))))

end

theorem Scans.newLine (depth : Nat) (scans : Scans rest more) :
    Scans (newLine depth ++ rest) more := by
  refine .blank rfl ?_
  induction 2 * depth with
  | zero => exact scans
  | succ blanks ih =>
      rw [List.replicate_succ]
      exact .blank rfl ih

theorem apart_prettyMoreItems (depth : Nat) (items : List Json) (rest : List Char) :
    Apart (prettyMoreItems depth items ++ rest) := by
  cases items <;> exact apart_cons (by decide)

theorem apart_prettyMoreMembers (depth : Nat) (members : List (List Char × Json))
    (rest : List Char) : Apart (prettyMoreMembers depth members ++ rest) := by
  cases members <;> exact apart_cons (by decide)

mutual

/-- So is text over several lines. -/
theorem scans_pretty {rest : List Char} {more : List Token} (depth : Nat) (value : Json)
    (proper : ∀ token ∈ value.tokens, token.IsProper) (apart : Apart rest)
    (scans : Scans rest more) : Scans (value.pretty depth ++ rest) (value.tokens ++ more) := by
  match value with
  | .null => exact .token rfl scans
  | .boolean true => exact .token rfl scans
  | .boolean false => exact .token rfl scans
  | .number written =>
      rw [pretty]
      exact .token (next?_number (proper _ (List.mem_singleton_self _)) apart) scans
  | .string literal =>
      rw [pretty]
      exact .token (next?_string (proper _ (List.mem_singleton_self _))) scans
  | .array [] => exact .token rfl (.token rfl scans)
  | .object [] => exact .token rfl (.token rfl scans)
  | .array (item :: items) =>
      simp only [Json.tokens, itemTokens, List.forall_mem_cons, List.forall_mem_append] at proper
      simp only [pretty, Json.tokens, itemTokens, List.append_assoc, List.cons_append]
      exact .token rfl (.newLine _ (scans_pretty _ item proper.2.1
        (apart_prettyMoreItems depth items rest)
        (scans_prettyMoreItems depth items proper.2.2 scans)))
  | .object ((key, value) :: members) =>
      simp only [Json.tokens, memberTokens, List.forall_mem_cons, List.forall_mem_append] at proper
      simp only [pretty, Json.tokens, memberTokens, List.append_assoc, List.cons_append,
        List.nil_append]
      exact .token rfl (.newLine _ (.token (next?_string proper.2.1.1) (.token rfl (.blank rfl
        (scans_pretty _ value proper.2.1.2.2 (apart_prettyMoreMembers depth members rest)
          (scans_prettyMoreMembers depth members proper.2.2 scans))))))

theorem scans_prettyMoreItems {rest : List Char} {more : List Token} (depth : Nat)
    (items : List Json) (proper : ∀ token ∈ moreItemTokens items, token.IsProper)
    (scans : Scans rest more) :
    Scans (prettyMoreItems depth items ++ rest) (moreItemTokens items ++ more) := by
  match items with
  | [] =>
      simp only [prettyMoreItems, moreItemTokens, List.append_assoc]
      exact .newLine _ (.token rfl scans)
  | item :: items =>
      simp only [moreItemTokens, List.forall_mem_append, List.forall_mem_cons] at proper
      simp only [prettyMoreItems, moreItemTokens, List.append_assoc, List.cons_append]
      exact .token rfl (.newLine _ (scans_pretty _ item proper.1.2
        (apart_prettyMoreItems depth items rest)
        (scans_prettyMoreItems depth items proper.2 scans)))

theorem scans_prettyMoreMembers {rest : List Char} {more : List Token} (depth : Nat)
    (members : List (List Char × Json))
    (proper : ∀ token ∈ moreMemberTokens members, token.IsProper) (scans : Scans rest more) :
    Scans (prettyMoreMembers depth members ++ rest) (moreMemberTokens members ++ more) := by
  match members with
  | [] =>
      simp only [prettyMoreMembers, moreMemberTokens, List.append_assoc]
      exact .newLine _ (.token rfl scans)
  | (key, value) :: members =>
      simp only [moreMemberTokens, List.forall_mem_append, List.forall_mem_cons] at proper
      simp only [prettyMoreMembers, moreMemberTokens, List.append_assoc, List.cons_append,
        List.nil_append]
      exact .token rfl (.newLine _ (.token (next?_string proper.1.2.1) (.token rfl (.blank rfl
        (scans_pretty _ value proper.1.2.2.2 (apart_prettyMoreMembers depth members rest)
          (scans_prettyMoreMembers depth members proper.2 scans))))))

end

end

/-- A value can be read back if its numbers and strings are written as such. -/
def IsProper (value : Json) : Prop :=
  ∀ token ∈ value.tokens, token.IsProper

theorem parse?_of_scans {value : Json} (scans : Scans text value.tokens) :
    parse? (String.ofList text) = some value := by
  rw [parse?, String.toList_ofList, scan_eq_some_iff.mpr scans]
  exact ofTokens?_tokens value

/-- **Values are read back from their text.** -/
theorem parse?_text {value : Json} (proper : value.IsProper) : parse? value.text = some value := by
  have scans : Scans (value.compact ++ []) (value.tokens ++ []) :=
    scans_compact value proper nofun .nothing
  rw [List.append_nil, List.append_nil] at scans
  exact parse?_of_scans scans

end Intcode.Json
