import Intcode.Proofs.ProgramText
import Mathlib.Data.List.Forall2

/-! # The grammar of program texts

A text denotes an integer if it is a sign or none, followed by digits whose value it is
(`Text.Decimal.Denotes`). Any other text, and any whose integer is outside a range, has a fault: the
first bad digit met from the left, or the digit with which the magnitude leaves the range
(`Text.Decimal.Faulty`). Reading an integer finds the one or the other
(`Text.Decimal.read_eq_ok_iff`, `Text.Decimal.read_eq_error_iff`), so a program text is read as the
words that its fields denote, and is refused for the first field that denotes none
(`Program.parse_accepts_grammar`). -/

namespace Intcode

namespace Text.Decimal

variable {low high value : Int} {limit start : Nat} {beyond fault : Fault} {c : Char}
  {token digits rest : List Char}

/-! ## Magnitudes -/

/-- Digits alone. -/
def AreDigits (text : List Char) : Prop :=
  ∀ c ∈ text, c.isDigit = true

theorem areDigits_cons : AreDigits (c :: rest) ↔ c.isDigit = true ∧ AreDigits rest :=
  List.forall_mem_cons

/-- Continuing a magnitude with the digits of a text, from the left, meets a fault. What stands
before the fault are digits with which the magnitude is still within the limit. -/
inductive MagnitudeFaulty (limit : Nat) (beyond : Fault) (start : Nat) (text : List Char) :
    Fault → Prop
  | badDigit {front rest : List Char} {c : Char} (split : text = front ++ c :: rest)
      (digits : AreDigits front) (within : Nat.ofDigitChars 10 front start ≤ limit)
      (bad : c.isDigit = false) : MagnitudeFaulty limit beyond start text .invalidDigit
  | overflow {front rest : List Char} {c : Char} (split : text = front ++ c :: rest)
      (digits : AreDigits (front ++ [c])) (within : Nat.ofDigitChars 10 front start ≤ limit)
      (outside : limit < Nat.ofDigitChars 10 (front ++ [c]) start) :
      MagnitudeFaulty limit beyond start text beyond

theorem digitValue?_of_isDigit (digit : c.isDigit = true) :
    digitValue? c = some (c.toNat - '0'.toNat) := by
  have between : '0' ≤ c ∧ c ≤ '9' := by
    simpa only [Char.isDigit, Bool.and_eq_true, decide_eq_true_eq, Char.le_def] using digit
  simp only [digitValue?, between, and_self, ↓reduceIte]

theorem digitValue?_of_not_isDigit (bad : c.isDigit = false) : digitValue? c = none := by
  have outside : ¬ ('0' ≤ c ∧ c ≤ '9') := by
    intro between
    have digit : c.isDigit = true := by
      simpa only [Char.isDigit, Bool.and_eq_true, decide_eq_true_eq, Char.le_def] using between
    rw [bad] at digit
    cases digit
  simp only [digitValue?, outside, ↓reduceIte]

theorem readMagnitude_of_bad (bad : c.isDigit = false) :
    readMagnitude limit beyond start (c :: rest) = .error .invalidDigit := by
  simp only [readMagnitude, digitValue?_of_not_isDigit bad]

theorem readMagnitude_of_digit (digit : c.isDigit = true) :
    readMagnitude limit beyond start (c :: rest) =
      if limit < Nat.ofDigitChars 10 [c] start then .error beyond
      else readMagnitude limit beyond (Nat.ofDigitChars 10 [c] start) rest := by
  simp only [readMagnitude, digitValue?_of_isDigit digit, Nat.ofDigitChars_cons,
    Nat.ofDigitChars_nil, Nat.mul_comm 10 start]

theorem le_ofDigitChars (start : Nat) (digits : List Char) :
    start ≤ Nat.ofDigitChars 10 digits start := by
  induction digits generalizing start with
  | nil => exact Nat.le_refl start
  | cons c rest ih =>
      rw [Nat.ofDigitChars_cons]
      exact Nat.le_trans (by omega) (ih _)

/-- Digits within the limit are read as the magnitude they make. -/
theorem readMagnitude_of_areDigits (areDigits : AreDigits digits)
    (within : Nat.ofDigitChars 10 digits start ≤ limit) :
    readMagnitude limit beyond start digits = .ok (Nat.ofDigitChars 10 digits start) := by
  induction digits generalizing start with
  | nil => rfl
  | cons c rest ih =>
      obtain ⟨digit, others⟩ := areDigits_cons.mp areDigits
      have split : Nat.ofDigitChars 10 (c :: rest) start =
          Nat.ofDigitChars 10 rest (Nat.ofDigitChars 10 [c] start) :=
        Nat.ofDigitChars_append (l := [c]) start
      rw [split] at within ⊢
      have inside := Nat.le_trans (le_ofDigitChars _ rest) within
      rw [readMagnitude_of_digit digit, if_neg (Nat.not_lt.mpr inside), ih others within]

theorem MagnitudeFaulty.readMagnitude_eq
    (faulty : MagnitudeFaulty limit beyond start digits fault) :
    readMagnitude limit beyond start digits = .error fault := by
  cases faulty with
  | badDigit split areDigits within bad =>
      rw [split, readMagnitude_append, readMagnitude_of_areDigits areDigits within]
      exact readMagnitude_of_bad bad
  | overflow split areDigits within outside =>
      have digit := areDigits _ (List.mem_append_right _ List.mem_cons_self)
      have before : AreDigits _ := fun c among => areDigits c (List.mem_append_left _ among)
      rw [Nat.ofDigitChars_append] at outside
      rw [split, readMagnitude_append, readMagnitude_of_areDigits before within]
      exact (readMagnitude_of_digit digit).trans (if_pos outside)

theorem MagnitudeFaulty.behind (digit : c.isDigit = true)
    (faulty : MagnitudeFaulty limit beyond (Nat.ofDigitChars 10 [c] start) rest fault) :
    MagnitudeFaulty limit beyond start (c :: rest) fault := by
  have further (front : List Char) : Nat.ofDigitChars 10 (c :: front) start =
      Nat.ofDigitChars 10 front (Nat.ofDigitChars 10 [c] start) :=
    Nat.ofDigitChars_append (l := [c]) start
  cases faulty with
  | @badDigit front _ _ split digits within bad =>
      have behind : c :: rest = (c :: front) ++ _ := congrArg (c :: ·) split
      refine .badDigit behind (areDigits_cons.mpr ⟨digit, digits⟩) ?_ bad
      rwa [further]
  | @overflow front _ _ split digits within outside =>
      have behind : c :: rest = (c :: front) ++ _ := congrArg (c :: ·) split
      refine .overflow behind (areDigits_cons.mpr ⟨digit, digits⟩) ?_ ?_
      · rwa [further]
      · rwa [List.cons_append, further]

/-- A text continues a magnitude, within the limit, or meets a fault. -/
theorem readMagnitude_cases (beyond : Fault) (inside : start ≤ limit) (text : List Char) :
    (AreDigits text ∧ Nat.ofDigitChars 10 text start ≤ limit) ∨
      ∃ fault, MagnitudeFaulty limit beyond start text fault := by
  induction text generalizing start with
  | nil => exact .inl ⟨nofun, inside⟩
  | cons c rest ih =>
      have split : c :: rest = [] ++ c :: rest := rfl
      cases digit : c.isDigit with
      | false => exact .inr ⟨_, .badDigit split nofun inside digit⟩
      | true =>
          by_cases outside : limit < Nat.ofDigitChars 10 [c] start
          · refine .inr ⟨beyond, .overflow split ?_ inside outside⟩
            exact fun other among => (List.mem_singleton.mp among).symm ▸ digit
          · rcases ih (Nat.not_lt.mp outside) with ⟨digits, within⟩ | ⟨fault, faulty⟩
            · exact .inl ⟨areDigits_cons.mpr ⟨digit, digits⟩, within⟩
            · exact .inr ⟨fault, faulty.behind digit⟩

/-! ## Integers -/

/-- A text denotes an integer: a sign or none, and then one or more digits. -/
inductive Denotes : List Char → Int → Prop
  | unsigned {digits : List Char} (some : digits ≠ []) (areDigits : AreDigits digits) :
      Denotes digits (Nat.ofDigitChars 10 digits 0)
  | plus {digits : List Char} (some : digits ≠ []) (areDigits : AreDigits digits) :
      Denotes ('+' :: digits) (Nat.ofDigitChars 10 digits 0)
  | minus {digits : List Char} (some : digits ≠ []) (areDigits : AreDigits digits) :
      Denotes ('-' :: digits) (-(Nat.ofDigitChars 10 digits 0 : Int))

/-- A text denotes no integer of a range, and this is what is wrong with it: it is empty, it is a
sign alone, or the digits that it should be meet a fault. -/
inductive Faulty (low high : Int) : List Char → Fault → Prop
  | empty : Faulty low high [] .empty
  | lone {sign : Char} (isSign : sign = '+' ∨ sign = '-') : Faulty low high [sign] .invalidDigit
  | unsigned {c : Char} {rest : List Char} {fault : Fault} (noSign : c ≠ '+' ∧ c ≠ '-')
      (faulty : MagnitudeFaulty high.toNat .tooLarge 0 (c :: rest) fault) :
      Faulty low high (c :: rest) fault
  | plus {digits : List Char} {fault : Fault} (some : digits ≠ [])
      (faulty : MagnitudeFaulty high.toNat .tooLarge 0 digits fault) :
      Faulty low high ('+' :: digits) fault
  | minus {digits : List Char} {fault : Fault} (some : digits ≠ [])
      (faulty : MagnitudeFaulty (-low).toNat .tooSmall 0 digits fault) :
      Faulty low high ('-' :: digits) fault

theorem read_plus (low high : Int) (some : digits ≠ []) :
    read low high ('+' :: digits) =
      (readMagnitude high.toNat .tooLarge 0 digits).map fun n => (n : Int) := by
  cases digits with
  | nil => exact absurd rfl some
  | cons c rest => rfl

theorem read_minus (high : Int) (negative : low < 0) (some : digits ≠ []) :
    read low high ('-' :: digits) =
      (readMagnitude (-low).toNat .tooSmall 0 digits).map fun n => -(n : Int) := by
  cases digits with
  | nil => exact absurd rfl some
  | cons c rest => simp only [read, negative, ↓reduceIte]

theorem ne_signs_of_isDigit (digit : c.isDigit = true) : c ≠ '+' ∧ c ≠ '-' := by
  constructor <;> rintro rfl <;> exact absurd digit (by decide)

theorem Denotes.read_eq (denotes : Denotes token value) (negative : low < 0)
    (least : low ≤ value) (greatest : value ≤ high) : read low high token = .ok value := by
  cases denotes with
  | @unsigned digits some areDigits =>
      obtain ⟨c, rest, rfl⟩ := List.exists_cons_of_ne_nil some
      obtain ⟨plus, minus⟩ := ne_signs_of_isDigit (areDigits c List.mem_cons_self)
      rw [read_of_unsigned low high plus minus, readMagnitude_of_areDigits areDigits (by omega)]
      rfl
  | plus some areDigits =>
      rw [read_plus low high some, readMagnitude_of_areDigits areDigits (by omega)]
      rfl
  | minus some areDigits =>
      rw [read_minus high negative some, readMagnitude_of_areDigits areDigits (by omega)]
      rfl

theorem Faulty.read_eq (faulty : Faulty low high token fault) (negative : low < 0) :
    read low high token = .error fault := by
  cases faulty with
  | empty => rfl
  | lone isSign => rcases isSign with rfl | rfl <;> rfl
  | unsigned noSign faulty =>
      rw [read_of_unsigned low high noSign.1 noSign.2, faulty.readMagnitude_eq]
      rfl
  | plus some faulty =>
      rw [read_plus low high some, faulty.readMagnitude_eq]
      rfl
  | minus some faulty =>
      rw [read_minus high negative some, faulty.readMagnitude_eq]
      rfl

/-- **Integers and faults.** A text denotes an integer of a range that reaches below zero and above,
or it is faulty. -/
theorem denotes_or_faulty (negative : low < 0) (positive : 0 ≤ high) (token : List Char) :
    (∃ value, Denotes token value ∧ low ≤ value ∧ value ≤ high) ∨
      ∃ fault, Faulty low high token fault := by
  have magnitude (limit : Nat) (beyond : Fault) (text : List Char) :=
    @readMagnitude_cases limit 0 beyond (Nat.zero_le limit) text
  cases token with
  | nil => exact .inr ⟨_, .empty⟩
  | cons c rest =>
      by_cases signed : c = '+' ∨ c = '-'
      · by_cases some : rest = []
        · subst some
          exact .inr ⟨_, .lone signed⟩
        · rcases signed with rfl | rfl
          · rcases magnitude high.toNat .tooLarge rest with ⟨areDigits, within⟩ | ⟨fault, faulty⟩
            · exact .inl ⟨_, .plus some areDigits, by omega, by omega⟩
            · exact .inr ⟨fault, .plus some faulty⟩
          · rcases magnitude (-low).toNat .tooSmall rest with ⟨areDigits, within⟩ | ⟨fault, faulty⟩
            · exact .inl ⟨_, .minus some areDigits, by omega, by omega⟩
            · exact .inr ⟨fault, .minus some faulty⟩
      · rcases magnitude high.toNat .tooLarge (c :: rest) with ⟨areDigits, within⟩ | ⟨fault, faulty⟩
        · have some : c :: rest ≠ [] := List.cons_ne_nil c rest
          exact .inl ⟨_, .unsigned some areDigits, by omega, by omega⟩
        · exact .inr ⟨fault, .unsigned (not_or.mp signed) faulty⟩

theorem read_eq_ok_iff (negative : low < 0) (positive : 0 ≤ high) :
    read low high token = .ok value ↔ Denotes token value ∧ low ≤ value ∧ value ≤ high := by
  constructor
  · intro found
    rcases denotes_or_faulty negative positive token with
      ⟨other, denotes, least, greatest⟩ | ⟨fault, faulty⟩
    · rw [denotes.read_eq negative least greatest] at found
      cases found
      exact ⟨denotes, least, greatest⟩
    · rw [faulty.read_eq negative] at found
      cases found
  · rintro ⟨denotes, least, greatest⟩
    exact denotes.read_eq negative least greatest

theorem read_eq_error_iff (negative : low < 0) (positive : 0 ≤ high) :
    read low high token = .error fault ↔ Faulty low high token fault := by
  constructor
  · intro refused
    rcases denotes_or_faulty negative positive token with
      ⟨value, denotes, least, greatest⟩ | ⟨other, faulty⟩
    · rw [denotes.read_eq negative least greatest] at refused
      cases refused
    · rw [faulty.read_eq negative] at refused
      cases refused
      exact faulty
  · intro faulty
    exact faulty.read_eq negative

end Text.Decimal

open Text

namespace Word

open Decimal (Denotes Faulty)

variable {token : List Char} {word : Word} {fault : Decimal.Fault}

/-- A text is read as the word that it denotes. -/
theorem read_eq_ok_iff : read token = .ok word ↔ Denotes token word.toInt := by
  unfold read
  constructor
  · intro found
    cases integer : Decimal.read Word.least Word.greatest token with
    | error fault =>
        rw [integer] at found
        cases found
    | ok value =>
        obtain ⟨denotes, above, below⟩ :=
          (Decimal.read_eq_ok_iff (by decide) (by decide)).mp integer
        rw [integer] at found
        cases found
        have same : (Int64.ofInt value).toInt = value :=
          Int64.toInt_ofInt_of_le above (Int.lt_of_le_sub_one below)
        rwa [same]
  · intro denotes
    have least : Word.least ≤ word.toInt := word.le_toInt
    have greatest : word.toInt ≤ Word.greatest := Int.le_sub_one_of_lt word.toInt_lt
    rw [denotes.read_eq (by decide) least greatest]
    exact congrArg Except.ok (Int64.ofInt_toInt word)

theorem read_eq_error_iff : read token = .error fault ↔ Faulty least greatest token fault := by
  rw [← Decimal.read_eq_error_iff (by decide) (by decide)]
  unfold read
  cases Decimal.read least greatest token with
  | error other => exact ⟨fun same => by cases same; rfl, fun same => by cases same; rfl⟩
  | ok value => exact ⟨nofun, nofun⟩

end Word

namespace Program

open Decimal (Denotes Faulty)

variable {source : String} {fields : List (List Char)} {cells : List Word}

/-! ## Programs -/

/-- A text denotes a word. -/
def DenotesWord (token : List Char) : Prop :=
  ∃ value, Denotes token value ∧ Word.least ≤ value ∧ value ≤ Word.greatest

/-- The error for a field that is no word. -/
def badField (index : Nat) (field : List Char) (fault : Decimal.Fault) : Error :=
  ((Error.badToken index (String.ofList (trim field))).inOperation "program::parse").becauseOf
    fault.message

/-- Among some fields there is one that denotes no word, and those before it do. -/
structure Offends (fields before : List (List Char)) (field : List Char) (fault : Decimal.Fault) :
    Prop where
  split : ∃ behind, fields = before ++ field :: behind
  first : ∀ earlier ∈ before, DenotesWord (trim earlier)
  undenoting : ¬ DenotesWord (trim field)
  faulty : Faulty Word.least Word.greatest (trim field) fault

theorem denotesWord_of_read {token : List Char} {word : Word} (found : Word.read token = .ok word) :
    DenotesWord token :=
  ⟨word.toInt, Word.read_eq_ok_iff.mp found, word.le_toInt, Int.le_sub_one_of_lt word.toInt_lt⟩

theorem exists_read_of_denotesWord {token : List Char} (denotes : DenotesWord token) :
    ∃ word, Word.read token = .ok word := by
  obtain ⟨value, denotes, least, greatest⟩ := denotes
  unfold Word.read
  rw [denotes.read_eq (by decide) least greatest]
  exact ⟨_, rfl⟩

theorem not_denotesWord_of_read {token : List Char} {fault : Decimal.Fault}
    (refused : Word.read token = .error fault) : ¬ DenotesWord token := fun denotes => by
  obtain ⟨word, found⟩ := exists_read_of_denotesWord denotes
  rw [found] at refused
  cases refused

theorem readFields_cons_of_ok {field : List Char} {cell : Word}
    (read : Word.read (trim field) = .ok cell) (index : Nat) (fields : List (List Char)) :
    readFields index (field :: fields) = (readFields (index + 1) fields).map (cell :: ·) := by
  simp only [readFields, read]

theorem readFields_cons_of_error {field : List Char} {fault : Decimal.Fault}
    (refused : Word.read (trim field) = .error fault) (index : Nat) (fields : List (List Char)) :
    readFields index (field :: fields) = .error (badField index field fault) := by
  simp only [readFields, refused, badField]

/-- What the fields of a text come to: the words that they denote, or the error for the first that
denotes none. -/
theorem readFields_cases (index : Nat) (fields : List (List Char)) :
    (∃ cells, readFields index fields = .ok cells ∧
      List.Forall₂ (fun field (cell : Word) => Denotes (trim field) cell.toInt) fields cells) ∨
    ∃ before field fault, Offends fields before field fault ∧
      readFields index fields = .error (badField (index + before.length) field fault) := by
  induction fields generalizing index with
  | nil => exact .inl ⟨[], rfl, .nil⟩
  | cons field rest ih =>
      cases read : Word.read (trim field) with
      | error fault =>
          refine .inr ⟨[], field, fault, ⟨⟨rest, rfl⟩, nofun, ?_, ?_⟩, ?_⟩
          · exact not_denotesWord_of_read read
          · exact Word.read_eq_error_iff.mp read
          · exact readFields_cons_of_error read index rest
      | ok cell =>
          rw [readFields_cons_of_ok read]
          rcases ih (index + 1) with
            ⟨cells, found, denote⟩ | ⟨before, other, fault, offends, refused⟩
          · exact .inl ⟨cell :: cells, by rw [found]; rfl,
              .cons (Word.read_eq_ok_iff.mp read) denote⟩
          · obtain ⟨⟨behind, split⟩, first, undenoting, faulty⟩ := offends
            have further : index + 1 + before.length = index + (field :: before).length := by
              rw [List.length_cons]
              omega
            refine .inr ⟨field :: before, other, fault,
              ⟨⟨behind, congrArg (field :: ·) split⟩, ?_, undenoting, faulty⟩, ?_⟩
            · exact List.forall_mem_cons.mpr ⟨denotesWord_of_read read, first⟩
            · rw [refused, further]
              rfl

theorem denotesWord_of_forall₂
    (denote : List.Forall₂ (fun field (cell : Word) => Denotes (trim field) cell.toInt) fields
      cells) : ∀ field ∈ fields, DenotesWord (trim field) := by
  induction denote with
  | nil => exact nofun
  | cons here _ ih =>
      exact List.forall_mem_cons.mpr ⟨denotesWord_of_read (Word.read_eq_ok_iff.mpr here), ih⟩

theorem Offends.exists_not_denotesWord {before : List (List Char)} {field : List Char}
    {fault : Decimal.Fault} (offends : Offends fields before field fault) :
    ∃ field ∈ fields, ¬ DenotesWord (trim field) := by
  obtain ⟨⟨behind, rfl⟩, _, undenoting, _⟩ := offends
  exact ⟨field, List.mem_append_right _ List.mem_cons_self, undenoting⟩

theorem parse_of_blank (blank : trim source.toList = []) :
    parse source =
      .error ((Error.parseFailed "program text is empty").inOperation "program::parse") := by
  simp only [parse, blank]

/-- What a text comes to that is not blank. -/
theorem parse_cases (written : trim source.toList ≠ []) :
    (∃ program, parse source = .ok program ∧
      List.Forall₂ (fun field (cell : Word) => Denotes (trim field) cell.toInt)
        (splitOn ',' (trim source.toList)) program.cells) ∨
    ∃ before field fault, Offends (splitOn ',' (trim source.toList)) before field fault ∧
      parse source = .error (badField before.length field fault) := by
  rw [parse_of_written written]
  rcases readFields_cases 0 (splitOn ',' (trim source.toList)) with
    ⟨cells, found, denote⟩ | ⟨before, field, fault, offends, refused⟩
  · exact .inl ⟨mk cells, by rw [found]; rfl, denote⟩
  · rw [Nat.zero_add] at refused
    exact .inr ⟨before, field, fault, offends, by rw [refused]; rfl⟩

/-- **The grammar of program texts.** A text is read as a program just when it is not blank and each
of the fields between its commas denotes a word, blanks around the text and around its fields apart;
the cells of the program are then the words that the fields denote, in order. A blank text is
refused without a cause. Any other text is refused for the first of its fields that denotes no word:
the error gives the position of the field and the field without the blanks around it, and its cause
is the fault that the field meets. -/
theorem parse_accepts_grammar (source : String) :
    ((∃ program, parse source = .ok program) ↔
      trim source.toList ≠ [] ∧
        ∀ field ∈ splitOn ',' (trim source.toList), DenotesWord (trim field)) ∧
    (∀ program, parse source = .ok program →
      List.Forall₂ (fun field (cell : Word) => Denotes (trim field) cell.toInt)
        (splitOn ',' (trim source.toList)) program.cells) ∧
    (trim source.toList = [] → ∃ error, parse source = .error error ∧
      error.kind = .parseFailed ∧ error.causes = []) ∧
    ∀ error, parse source = .error error → trim source.toList ≠ [] →
      ∃ before field fault, Offends (splitOn ',' (trim source.toList)) before field fault ∧
        error.kind = .parseFailed ∧
        error.contextValue? "index" = some (natText before.length) ∧
        error.contextValue? "token" = some (String.ofList (trim field)) ∧
        error.causes = [.text fault.message] := by
  by_cases blank : trim source.toList = []
  · have refused := parse_of_blank blank
    refine ⟨⟨?_, ?_⟩, ?_, fun _ => ⟨_, refused, rfl, rfl⟩, fun _ _ written => absurd blank written⟩
    · rintro ⟨program, accepted⟩
      rw [refused] at accepted
      cases accepted
    · exact fun ⟨written, _⟩ => absurd blank written
    · intro program accepted
      rw [refused] at accepted
      cases accepted
  · rcases parse_cases blank with
      ⟨program, accepted, denote⟩ | ⟨before, field, fault, offends, refused⟩
    · refine ⟨⟨?_, ?_⟩, ?_, fun same => absurd same blank, ?_⟩
      · exact fun _ => ⟨blank, denotesWord_of_forall₂ denote⟩
      · exact fun _ => ⟨program, accepted⟩
      · intro other again
        rw [accepted] at again
        cases again
        exact denote
      · intro error refused
        rw [accepted] at refused
        cases refused
    · refine ⟨⟨?_, ?_⟩, ?_, fun same => absurd same blank, ?_⟩
      · rintro ⟨program, accepted⟩
        rw [refused] at accepted
        cases accepted
      · rintro ⟨_, denote⟩
        obtain ⟨other, among, undenoting⟩ := offends.exists_not_denotesWord
        exact absurd (denote other among) undenoting
      · intro program accepted
        rw [refused] at accepted
        cases accepted
      · intro error again _
        rw [refused] at again
        cases again
        exact ⟨before, field, fault, offends, rfl, rfl, rfl, rfl⟩

/-- A text with a field that leaves the range before its bad digit, between one with a plus sign and
blanks and one that is empty. -/
def overflowing : String :=
  " +07,\t-9223372036854775809x ,"

/-- It is refused for the field in the middle, as too small. -/
theorem overflowing_is_refused :
    trim overflowing.toList ≠ [] ∧
    ∃ before field fault, Offends (splitOn ',' (trim overflowing.toList)) before field fault ∧
      natText before.length = "1" ∧ String.ofList (trim field) = "-9223372036854775809x" ∧
      fault.message = "number too small to fit in target type" := by
  have written : trim overflowing.toList ≠ [] := by decide
  have refused : ∃ error, parse overflowing = .error error ∧
      error.contextValue? "index" = some "1" ∧
      error.contextValue? "token" = some "-9223372036854775809x" ∧
      error.causes = [.text "number too small to fit in target type"] := ⟨_, rfl, rfl, rfl, rfl⟩
  obtain ⟨error, refused, one, middle, small⟩ := refused
  obtain ⟨before, field, fault, offends, _, position, token, causes⟩ :=
    (parse_accepts_grammar overflowing).2.2.2 error refused written
  rw [one] at position
  rw [middle] at token
  have message : fault.message = "number too small to fit in target type" :=
    (Cause.text.inj (List.head_eq_of_cons_eq (small.symm.trans causes))).symm
  exact ⟨written, before, field, fault, offends, (Option.some.inj position).symm,
    (Option.some.inj token).symm, message⟩

end Program

end Intcode
