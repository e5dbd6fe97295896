import Intcode.Proofs.ListingText
import Intcode.Proofs.ProgramGrammar

/-! # Errors on one line

The compact form of an error is meant for a line of a log. For a program text that is refused it
shows the offending field twice, as it was written but for the blanks around it
(`Program.display_badField`). A field ends at a comma only, so it may go on over a line break, and
then the compact form does too (`Program.broken_field_breaks_error`). Nothing else in it breaks the
line, so it stays on one line just when the offending field does
(`Program.errors_break_with_field`). -/

namespace Intcode

open Text

namespace Text

variable {separator c : Char} {text field left right : List Char}

/-- A character at which a line ends wherever it stands: a line feed, a vertical tabulator, a form
feed, a carriage return, a next line, or one of the two separators of lines and paragraphs. -/
def isLineBreak (c : Char) : Bool :=
  let code := c.toNat
  (10 ≤ code && code ≤ 13) || code == 0x85 || code == 0x2028 || code == 0x2029

/-- Nothing in the text ends a line. -/
def IsOneLine (text : List Char) : Prop :=
  ∀ c ∈ text, isLineBreak c = false

instance (text : List Char) : Decidable (IsOneLine text) :=
  List.decidableBAll _ text

theorem isOneLine_append : IsOneLine (left ++ right) ↔ IsOneLine left ∧ IsOneLine right :=
  List.forall_mem_append

theorem isOneLine_writeNat (n : Nat) : IsOneLine (Decimal.writeNat n) := by
  intro c among
  have digit : c.isDigit = true := Decimal.isDigit_of_mem_writeNat among
  simp only [Char.isDigit, Bool.and_eq_true, decide_eq_true_eq, UInt32.le_iff_toNat_le] at digit
  have bounds : 48 ≤ c.toNat ∧ c.toNat ≤ 57 := digit
  simp only [isLineBreak, Bool.or_eq_false_iff, Bool.and_eq_false_iff, decide_eq_false_iff_not,
    beq_eq_false_iff_ne]
  omega

theorem mem_of_mem_trim (among : c ∈ trim text) : c ∈ text :=
  (List.dropWhile_sublist _).mem (mem_of_mem_trimRight among)

/-- What is in a field is in the text. -/
theorem mem_of_mem_splitOn (inside : field ∈ splitOn separator text) (among : c ∈ field) :
    c ∈ text := by
  rw [← joinWith_splitOn separator text]
  exact mem_joinWith_of_mem inside among

end Text

namespace Program

variable {source : String} {error : Error}

/-- The compact form of the error for a field shows the field twice. -/
theorem display_badField (index : Nat) (field : List Char) (fault : Decimal.Fault) :
    (badField index field fault).display =
      "ParseFailed at program::parse, context \x7b index: " ++ natText index ++ ", token: " ++
        String.ofList (trim field) ++ " \x7d => value " ++ natText index ++ " ('" ++
        String.ofList (trim field) ++ "') is not an integer" := by
  have said : "value " ++ natText index ++ " ('" ++ String.ofList (trim field) ++
      "') is not an integer" ≠ "" := by
    intro nothing
    have empty := congrArg String.toList nothing
    rw [String.toList_append] at empty
    exact absurd (List.append_eq_nil_iff.mp empty).2 (by decide)
  simp only [badField, Error.badToken, Error.becauseOf, Error.inOperation, Error.withContext,
    Error.parseFailed, Error.ofMessage, Error.display, Diagnosis.display, Diagnosis.contextText,
    ErrorKind.name, ↓reduceIte, List.nil_append, List.cons_append, List.map_cons, List.map_nil,
    said, String.intercalate_cons_cons, String.intercalate_singleton]
  apply String.toList_inj.mp
  simp

/-- Besides the field there are fixed words and the digits of its position, which end no line. -/
theorem isOneLine_badField_iff (index : Nat) (field : List Char) (fault : Decimal.Fault) :
    IsOneLine (badField index field fault).display.toList ↔ IsOneLine (trim field) := by
  have digits : IsOneLine (natText index).toList := by
    rw [natText, String.toList_ofList]
    exact isOneLine_writeNat index
  have opening : IsOneLine "ParseFailed at program::parse, context \x7b index: ".toList := by decide
  have token : IsOneLine ", token: ".toList := by decide
  have position : IsOneLine " \x7d => value ".toList := by decide
  have quote : IsOneLine " ('".toList := by decide
  have closing : IsOneLine "') is not an integer".toList := by decide
  rw [display_badField]
  simp only [String.toList_append, String.toList_ofList, isOneLine_append, digits, opening, token,
    position, quote, closing, and_true, true_and, and_self]

/-- **Errors break with the field.** A program text that is refused for being blank gets an error on
one line. Any other that is refused gets one whose compact form stays on one line just when there is
no line break inside the token, which is the first field that denotes no word, without the blanks
around it. So a text on one line gets an error on one line. -/
theorem errors_break_with_field (refused : parse source = .error error) :
    (trim source.toList = [] → IsOneLine error.display.toList) ∧
    (trim source.toList ≠ [] →
      ∃ before field fault, Offends (splitOn ',' (trim source.toList)) before field fault ∧
        error.contextValue? "token" = some (String.ofList (trim field)) ∧
        (IsOneLine error.display.toList ↔ IsOneLine (trim field))) ∧
    (IsOneLine source.toList → IsOneLine error.display.toList) := by
  by_cases blank : trim source.toList = []
  · rw [parse_of_blank blank] at refused
    cases refused
    have oneLine : IsOneLine ((Error.parseFailed "program text is empty").inOperation
      "program::parse").display.toList := by decide
    exact ⟨fun _ => oneLine, fun written => absurd blank written, fun _ => oneLine⟩
  · rcases parse_cases blank with ⟨program, accepted, _⟩ | ⟨before, field, fault, offends, again⟩
    · rw [accepted] at refused
      cases refused
    · rw [again] at refused
      cases refused
      have breaks := isOneLine_badField_iff before.length field fault
      refine ⟨fun empty => absurd empty blank,
        fun _ => ⟨before, field, fault, offends, rfl, breaks⟩,
        fun oneLine => breaks.mpr fun c among => oneLine c ?_⟩
      obtain ⟨behind, split⟩ := offends.split
      have inside : field ∈ splitOn ',' (trim source.toList) :=
        split ▸ List.mem_append_right _ List.mem_cons_self
      exact mem_of_mem_trim (mem_of_mem_splitOn inside (mem_of_mem_trim among))

/-- A text that goes on over several lines, in which a field on one of them denotes no word. -/
def severalLines : String :=
  "3,0,\n4,x,\r\n99\n"

/-- Its line breaks stand before the offending field and behind it. -/
theorem severalLines_error_is_one_line : ∃ error, parse severalLines = .error error ∧
    error.contextValue? "token" = some "x" ∧ IsOneLine error.display.toList := by
  have refused : ∃ error, parse severalLines = .error error ∧
      error.contextValue? "token" = some "x" := ⟨_, rfl, rfl⟩
  obtain ⟨error, refused, token⟩ := refused
  obtain ⟨_, _, _, _, again, breaks⟩ := (errors_break_with_field refused).2.1 (by decide)
  rw [token, Option.some.injEq] at again
  refine ⟨error, refused, token, breaks.mpr ?_⟩
  rw [← String.toList_ofList (l := trim _), ← again]
  decide

/-- A line break in the place of a comma comes to stand inside a field. -/
theorem broken_field_breaks_error : ∃ error, parse "1,2\n3,99" = .error error ∧
    error.contextValue? "token" = some "2\n3" ∧ ¬ IsOneLine error.display.toList :=
  ⟨_, rfl, rfl, by decide⟩

end Program

end Intcode
