import Intcode.CommandLine.StandardInput
import Intcode.Bridge
import Intcode.Iteration
import Intcode.Proofs.ProgramGrammar
import Mathlib.Data.List.DropRight
import Mathlib.Logic.Function.Iterate

/-! # Questions and lines

A question for input is answered from a buffer, and when that is empty by reading on until a line
gives something (`StandardInput.ask`). Reading on comes to an end, since every turn that does not
answer takes a line or is followed by one that finds a value in the buffer.

The answers are those of `StandardInput.readings` and refusals behind them
(`StandardInput.ask_answers`), so the list of them can stand for the buffer. For a text they are
found on its lines, which it has in one way only (`AreLines.unique`): a byte that ends a line is
part of no other character. So a text is answered with the words that its lines denote, or with the
bytes of its lines, whatever else ends them (`StandardInput.answers_follow_lines`). -/

namespace Intcode

/-! ## Lines -/

/-- A text consists of lines. Each has its ending behind it, which the last may lack if there is
something on it. -/
inductive AreLines {α : Type} (ending : α) : List α → List (List α) → Prop
  | nothing : AreLines ending [] []
  | last {line : List α} (something : line ≠ []) (plain : ending ∉ line) :
      AreLines ending line [line]
  | line {line rest : List α} {lines : List (List α)} (plain : ending ∉ line)
      (others : AreLines ending rest lines) :
      AreLines ending (line ++ ending :: rest) ((line ++ [ending]) :: lines)

namespace AreLines

variable {α : Type} {ending : α} {text line other rest behind : List α}
  {lines others : List (List α)}

theorem exists_areLines (ending : α) (text : List α) : ∃ lines, AreLines ending text lines := by
  classical
  induction text with
  | nil => exact ⟨[], .nothing⟩
  | cons a rest ih =>
      obtain ⟨lines, areLines⟩ := ih
      by_cases ends : a = ending
      · subst ends
        exact ⟨_, .line List.not_mem_nil areLines⟩
      · have plainly {line : List α} (plain : ending ∉ line) : ending ∉ a :: line :=
          List.not_mem_cons_of_ne_of_not_mem (Ne.symm ends) plain
        cases areLines with
        | nothing => exact ⟨_, .last (List.cons_ne_nil a []) (plainly List.not_mem_nil)⟩
        | last _ plain => exact ⟨_, .last (List.cons_ne_nil a rest) (plainly plain)⟩
        | line plain others => exact ⟨_, .line (plainly plain) others⟩

/-- The first ending settles what is before it and behind it. -/
theorem line_inj (plain : ending ∉ line) (otherPlain : ending ∉ other)
    (same : line ++ ending :: rest = other ++ ending :: behind) : line = other ∧ rest = behind := by
  induction line generalizing other with
  | nil =>
      cases other with
      | nil => exact ⟨rfl, (List.cons.inj same).2⟩
      | cons a other => exact absurd ((List.cons.inj same).1 ▸ List.mem_cons_self) otherPlain
  | cons a line ih =>
      cases other with
      | nil => exact absurd ((List.cons.inj same).1 ▸ List.mem_cons_self) plain
      | cons b other =>
          obtain ⟨rfl, behindFirst⟩ := List.cons.inj same
          rw [List.mem_cons, not_or] at plain otherPlain
          obtain ⟨rfl, rfl⟩ := ih plain.2 otherPlain.2 behindFirst
          exact ⟨rfl, rfl⟩

/-- A text consists of lines in one way. -/
theorem unique (areLines : AreLines ending text lines) (again : AreLines ending text others) :
    others = lines := by
  have ended (line rest : List α) : ending ∈ line ++ ending :: rest :=
    List.mem_append_right _ List.mem_cons_self
  induction areLines generalizing others with
  | nothing =>
      generalize same : ([] : List α) = text at again
      cases again with
      | nothing => rfl
      | last something => exact absurd same.symm something
      | line => exact absurd (same ▸ ended _ _) List.not_mem_nil
  | last something plain =>
      cases again with
      | nothing => exact absurd rfl something
      | last => rfl
      | line => exact absurd (ended _ _) plain
  | @line line rest lines plain _ ih =>
      generalize same : line ++ ending :: rest = text at again
      cases again with
      | nothing => exact absurd (same ▸ ended _ _) List.not_mem_nil
      | last _ otherPlain => exact absurd (same ▸ ended _ _) otherPlain
      | line otherPlain later =>
          obtain ⟨rfl, rfl⟩ := line_inj plain otherPlain same
          rw [ih later]

end AreLines

/-! ## Bytes of a text -/

namespace Text

variable {c : Char} {byte : UInt8} {text : List Char}

/-- The bytes of a text, in UTF-8. -/
def encoded (text : List Char) : List UInt8 :=
  text.flatMap String.utf8EncodeChar

theorem toList_byteArray (bytes : ByteArray) : bytes.toList = bytes.data.toList := by
  have loop (place : Nat) (row : List UInt8) :
      ByteArray.toList.loop bytes place row = row.reverse ++ bytes.data.toList.drop place := by
    fun_induction ByteArray.toList.loop bytes place row with
    | case1 place row inside ih =>
        have within : place < bytes.data.toList.length := inside
        rw [ih, List.drop_eq_getElem_cons within]
        simp [ByteArray.get!, inside]
    | case2 place row outside =>
        have past : bytes.data.toList.length ≤ place := Nat.le_of_not_lt outside
        rw [List.drop_eq_nil_of_le past, List.append_nil]
  rw [ByteArray.toList, loop]
  rfl

theorem toList_toUTF8 (text : String) : text.toUTF8.toList = encoded text.toList := by
  rw [toList_byteArray, String.toUTF8_eq_toByteArray, ← String.utf8Encode_toList, List.utf8Encode,
    List.toList_data_toByteArray, encoded]

/-- A byte below 128 stands for a character alone. -/
theorem utf8EncodeChar_eq_of_mem (among : byte ∈ String.utf8EncodeChar c) (small : byte < 128) :
    String.utf8EncodeChar c = [byte] ∧ c.toNat = byte.toNat := by
  have high {n : Nat} (least : 128 ≤ n) (most : n < 256) : byte ≠ UInt8.ofNat n := by
    rintro rfl
    rw [UInt8.lt_iff_toNat_lt, UInt8.toNat_ofNat_of_lt' most] at small
    exact absurd small (Nat.not_lt.mpr least)
  unfold String.utf8EncodeChar at among ⊢
  dsimp only at among ⊢
  split at among
  · rename_i single
    obtain rfl := List.mem_singleton.mp among
    rw [if_pos single, UInt8.toNat_ofNat_of_lt' (Nat.lt_of_le_of_lt single (by decide))]
    exact ⟨rfl, rfl⟩
  · exfalso
    have first (n : Nat) : byte ≠ UInt8.ofNat (n % 32 + 192) ∧ byte ≠ UInt8.ofNat (n % 16 + 224) ∧
        byte ≠ UInt8.ofNat (n % 8 + 240) :=
      ⟨high (by omega) (by omega), high (by omega) (by omega), high (by omega) (by omega)⟩
    have further (n : Nat) : byte ≠ UInt8.ofNat (n % 64 + 128) := high (by omega) (by omega)
    split at among
    · simp only [List.mem_cons, first, further, List.not_mem_nil, or_self] at among
    · split at among <;>
        simp only [List.mem_cons, first, further, List.not_mem_nil, or_self] at among

/-- Only a line feed is written with the byte of one. -/
theorem lineFeed_mem_of_encoded (among : 10 ∈ encoded text) : '\n' ∈ text := by
  obtain ⟨c, inside, among⟩ := List.mem_flatMap.mp among
  have same := (utf8EncodeChar_eq_of_mem among (by decide)).2
  obtain rfl : c = '\n' := Char.toNat_inj.mp same
  exact inside

theorem encoded_append (left right : List Char) :
    encoded (left ++ right) = encoded left ++ encoded right :=
  List.flatMap_append

theorem encoded_ne_nil (something : text ≠ []) : encoded text ≠ [] := by
  obtain ⟨c, rest, rfl⟩ := List.exists_cons_of_ne_nil something
  exact fun nothing => String.utf8EncodeChar_ne_nil (List.append_eq_nil_iff.mp nothing).1

end Text

open Text (encoded)

/-- The bytes of a text consist of the bytes of its lines. -/
theorem AreLines.encoded {text : List Char} {lines : List (List Char)}
    (areLines : AreLines '\n' text lines) : AreLines 10 (encoded text) (lines.map encoded) := by
  have plainly {line : List Char} (plain : '\n' ∉ line) : 10 ∉ Text.encoded line :=
    mt Text.lineFeed_mem_of_encoded plain
  induction areLines with
  | nothing => exact .nothing
  | last something plain => exact .last (Text.encoded_ne_nil something) (plainly plain)
  | @line line rest lines plain _ ih =>
      rw [Text.encoded_append, List.map_cons, Text.encoded_append]
      exact .line (plainly plain) ih

namespace StandardInput

variable {input line rest : List UInt8} {rows : List (List UInt8)} {text : List Char}

/-! ## Reading lines -/

theorem lines_last (something : line ≠ []) (plain : 10 ∉ line) : lines line = [line] := by
  induction line with
  | nil => exact absurd rfl something
  | cons byte rest ih =>
      rw [List.mem_cons, not_or] at plain
      rw [lines, if_neg (Ne.symm plain.1)]
      cases rest with
      | nil => rfl
      | cons next rest => rw [ih (List.cons_ne_nil next rest) plain.2]

theorem lines_append (plain : 10 ∉ line) (rest : List UInt8) :
    lines (line ++ 10 :: rest) = (line ++ [10]) :: lines rest := by
  induction line with
  | nil => rfl
  | cons byte line ih =>
      rw [List.mem_cons, not_or] at plain
      rw [List.cons_append, lines, if_neg (Ne.symm plain.1), ih plain.2]
      rfl

/-- What is read line by line are the lines. -/
theorem lines_eq (areLines : AreLines 10 input rows) : lines input = rows := by
  induction areLines with
  | nothing => rfl
  | last something plain => exact lines_last something plain
  | line plain _ ih => rw [lines_append plain, ih]

theorem text?_encoded (text : List Char) : text? (encoded text) = some text := by
  have bytes : (⟨(encoded text).toArray⟩ : ByteArray) = text.utf8Encode := by
    rw [List.utf8Encode]
    exact ByteArray.ext (List.data_toByteArray).symm
  have valid : text.utf8Encode.IsValidUTF8 := ByteArray.isValidUTF8_utf8Encode
  have whole : String.fromUTF8 text.utf8Encode valid = String.ofList text :=
    String.toByteArray_inj.mp String.toByteArray_ofList.symm
  rw [text?, bytes, String.fromUTF8?, dif_pos valid, whole, Option.map_some, String.toList_ofList]

/-! ## What a line gives -/

/-- A character that belongs to the end of a line. -/
def endsLine (c : Char) : Bool :=
  c = '\n' || c = '\r'

/-- A byte ends a line just when its character does. -/
theorem endsLine_of_mem {c : Char} {byte : UInt8} (among : byte ∈ String.utf8EncodeChar c)
    (ends : isLineEnd byte = true) : endsLine c = true := by
  simp only [isLineEnd, Bool.or_eq_true, decide_eq_true_eq] at ends
  simp only [endsLine, Bool.or_eq_true, decide_eq_true_eq]
  rcases ends with rfl | rfl
  · exact .inl (Char.toNat_inj.mp (Text.utf8EncodeChar_eq_of_mem among (by decide)).2)
  · exact .inr (Char.toNat_inj.mp (Text.utf8EncodeChar_eq_of_mem among (by decide)).2)

theorem rdropWhile_encoded (line : List Char) :
    (encoded line).rdropWhile isLineEnd = encoded (line.rdropWhile endsLine) := by
  induction line using List.reverseRecOn with
  | nil => rfl
  | append_singleton line c ih =>
      have last : encoded [c] = String.utf8EncodeChar c := List.append_nil _
      rw [Text.encoded_append, last]
      by_cases ends : endsLine c = true
      · rw [List.rdropWhile_concat_pos _ _ _ ends, ← ih]
        simp only [endsLine, Bool.or_eq_true, decide_eq_true_eq] at ends
        rcases ends with rfl | rfl <;> exact List.rdropWhile_concat_pos _ _ _ (by decide)
      · rw [List.rdropWhile_concat_neg _ _ _ ends, Text.encoded_append, last,
          List.rdropWhile_eq_self_iff]
        intro some end_
        rw [List.getLast_append_of_ne_nil _ String.utf8EncodeChar_ne_nil] at end_
        exact ends (endsLine_of_mem (List.getLast_mem _) end_)

/-- The values of a line that is taken byte by byte: its bytes without what ends it, and a line
feed. -/
def spelled (line : List Char) : List Word :=
  (encoded (line.rdropWhile endsLine) ++ [10]).map fun byte : UInt8 => Int64.ofNat byte.toNat

/-- Some values are the words that lines denote, in order. The other lines denote none. -/
inductive AreWords : List (List Char) → List Word → Prop
  | nothing : AreWords [] []
  | word {line : List Char} {lines : List (List Char)} {value : Word} {values : List Word}
      (denotes : Text.Decimal.Denotes (Text.trim line) value.toInt)
      (others : AreWords lines values) : AreWords (line :: lines) (value :: values)
  | other {line : List Char} {lines : List (List Char)} {values : List Word}
      (undenoting : ¬ Program.DenotesWord (Text.trim line)) (others : AreWords lines values) :
      AreWords (line :: lines) values

theorem bytes_encoded (line : List Char) :
    (bytes (encoded line)).map (·.value) = (spelled line).map some := by
  have spelling : characters (encoded line) = encoded (line.rdropWhile endsLine) ++ [10] :=
    congrArg (· ++ [10]) (rdropWhile_encoded line)
  simp only [bytes, text?_encoded, spelling, spelled, List.map_map]
  rfl

/-! ## Answers and refusals -/

/-- The answer to a question, given answers in order. Behind the last of them there are refusals. -/
def answerTo (answers : List (Option Word)) (question : Nat) : Option Word :=
  answers[question]?.join

theorem answerTo_values (values : List Word) (question : Nat) :
    answerTo (values.map some) question = values[question]? := by
  rw [answerTo, List.getElem?_map]
  cases values[question]? <;> rfl

/-- The answers that lines give. -/
def answers (ascii : Bool) (rows : List (List UInt8)) : List (Option Word) :=
  (if ascii then rows.flatMap bytes else numbers [] rows).map (·.value)

/-- Remarks that were made before have no part in the answers. -/
theorem answerTo_numbers (remarks : Log) (rows : List (List UInt8)) (question : Nat) :
    answerTo ((numbers remarks rows).map (·.value)) question =
      answerTo ((numbers [] rows).map (·.value)) question := by
  induction rows generalizing remarks question with
  | nil =>
      cases remarks with
      | nil => rfl
      | cons entry rest => cases question <;> rfl
  | cons line rest ih =>
      simp only [numbers]
      cases text? line with
      | none => cases question <;> rfl
      | some text =>
          dsimp only
          cases Word.read (Text.trim text) with
          | ok value => cases question <;> rfl
          | error fault =>
              dsimp only
              rw [ih, ih ([] ++ _)]

theorem exists_areWords (rows : List (List Char)) : ∃ values, AreWords rows values := by
  induction rows with
  | nil => exact ⟨[], .nothing⟩
  | cons line rest ih =>
      obtain ⟨values, others⟩ := ih
      cases read : Word.read (Text.trim line) with
      | ok value => exact ⟨value :: values, .word (Word.read_eq_ok_iff.mp read) others⟩
      | error fault => exact ⟨values, .other (Program.not_denotesWord_of_read read) others⟩

theorem AreWords.answerTo_eq {rows : List (List Char)} {values : List Word}
    (areWords : AreWords rows values) (question : Nat) :
    answerTo (answers false (rows.map encoded)) question = values[question]? := by
  induction areWords generalizing question with
  | nothing => rfl
  | word denotes _ ih =>
      simp only [answers, Bool.false_eq_true, ↓reduceIte] at ih
      simp only [answers, Bool.false_eq_true, ↓reduceIte, List.map_cons, numbers, text?_encoded,
        Word.read_eq_ok_iff.mpr denotes]
      cases question with
      | zero => rfl
      | succ question => exact ih question
  | @other line rows values undenoting _ ih =>
      cases read : Word.read (Text.trim line) with
      | ok value => exact absurd (Program.denotesWord_of_read read) undenoting
      | error fault =>
          rw [← ih]
          simp only [answers, Bool.false_eq_true, ↓reduceIte, List.map_cons, numbers, text?_encoded,
            read]
          exact answerTo_numbers _ _ question

/-- Some values are those of lines: the bytes of all lines, or the words among them. -/
def AreValues (ascii : Bool) (rows : List (List Char)) (values : List Word) : Prop :=
  if ascii then values = rows.flatMap spelled else AreWords rows values

theorem exists_areValues (ascii : Bool) (rows : List (List Char)) :
    ∃ values, AreValues ascii rows values := by
  cases ascii with
  | true => exact ⟨_, rfl⟩
  | false => exact exists_areWords rows

/-- The answers that the lines of a text give are its values. -/
theorem AreValues.answerTo_eq {ascii : Bool} {rows : List (List Char)} {values : List Word}
    (areValues : AreValues ascii rows values) (question : Nat) :
    answerTo (answers ascii (rows.map encoded)) question = values[question]? := by
  cases ascii with
  | false => exact AreWords.answerTo_eq areValues question
  | true =>
      obtain rfl : values = rows.flatMap spelled := areValues
      have spelling : answers true (rows.map encoded) = (rows.flatMap spelled).map some := by
        simp only [answers, ↓reduceIte, List.map_flatMap, List.flatMap_map, bytes_encoded]
      rw [spelling, answerTo_values]

/-! ## Asking -/

/-- What is left of standard input: the values of a line that were not handed out, and the lines
that were not read. -/
structure Reader where
  buffered : List Word := []
  unread : List (List UInt8)

/-- One turn in answering a question: a value is handed out, or else a line is read. -/
def turn (ascii : Bool) (reader : Reader) : Turn Reader (Option Word × Reader) :=
  match reader.buffered, reader.unread with
  | value :: buffered, unread => .done (some value, ⟨buffered, unread⟩)
  | [], [] => .done (none, reader)
  | [], line :: unread =>
      match text? line with
      | none => .done (none, ⟨[], unread⟩)
      | some text =>
          if ascii then
            .again ⟨(characters line).map fun byte => Int64.ofNat byte.toNat, unread⟩
          else
            match Word.read (Text.trim text) with
            | .ok value => .done (some value, ⟨[], unread⟩)
            | .error _ => .again ⟨[], unread⟩

/-- Answers a question, within `fuel` turns. -/
def ask (ascii : Bool) (fuel : Nat) (reader : Reader) : Option (Option Word × Reader) :=
  iterate (fun reader => some (turn ascii reader)) fuel reader

/-- Answers questions one after the other. There is no result when one is not answered. -/
def askAll (ascii : Bool) (fuel : Nat) :
    (count : Nat) → Reader → Option (List (Option Word) × Reader)
  | 0, reader => some ([], reader)
  | count + 1, reader =>
      match ask ascii fuel reader with
      | none => none
      | some (answer, next) =>
          (askAll ascii fuel count next).map fun (others, last) => (answer :: others, last)

namespace Reader

variable {ascii : Bool} {fuel count : Nat} {reader next : Reader}

/-- The answers to come. -/
def upcoming (ascii : Bool) (reader : Reader) : List (Option Word) :=
  reader.buffered.map some ++ answers ascii reader.unread

/-- Answering the next question with a value or a refusal leaves the answers behind it. -/
structure Answers (ascii : Bool) (reader : Reader) (answer : Option Word) (next : Reader) :
    Prop where
  answer_eq : answer = answerTo (reader.upcoming ascii) 0
  later_eq : ∀ question,
    answerTo (next.upcoming ascii) question = answerTo (reader.upcoming ascii) (question + 1)
  unread_le : next.unread.length ≤ reader.unread.length

theorem answers_of_cons {answer : Option Word}
    (here : reader.upcoming ascii = answer :: next.upcoming ascii)
    (unread_le : next.unread.length ≤ reader.unread.length) :
    Answers ascii reader answer next where
  answer_eq := by
    rw [here]
    rfl
  later_eq question := by
    rw [here]
    rfl
  unread_le := unread_le

/-- A reader with nothing left refuses, now and later. -/
theorem answers_of_exhausted (ascii : Bool) : Answers ascii ⟨[], []⟩ none ⟨[], []⟩ := by
  cases ascii <;> exact ⟨rfl, fun _ => rfl, Nat.le_refl _⟩

theorem ask_of_unreadable {line : List UInt8} (unreadable : text? line = none)
    (unread : List (List UInt8)) :
    ask ascii (fuel + 1) ⟨[], line :: unread⟩ = some (none, ⟨[], unread⟩) ∧
      Answers ascii ⟨[], line :: unread⟩ none ⟨[], unread⟩ := by
  refine ⟨by simp only [ask, iterate, turn, unreadable], answers_of_cons ?_ (Nat.le_succ _)⟩
  cases ascii <;> simp [upcoming, answers, numbers, bytes, unreadable]

/-- The values that a line put into the buffer. -/
theorem ask_bytes {line : List UInt8} {text : List Char} (readable : text? line = some text)
    (unread : List (List UInt8)) :
    ∃ answer next, ask true (fuel + 2) ⟨[], line :: unread⟩ = some (answer, next) ∧
      Answers true ⟨[], line :: unread⟩ answer next := by
  have something : characters line ≠ [] :=
    List.append_ne_nil_of_right_ne_nil _ (List.cons_ne_nil _ _)
  obtain ⟨first, rest, split⟩ := List.exists_cons_of_ne_nil something
  refine ⟨some (Int64.ofNat first.toNat), ⟨rest.map fun byte => Int64.ofNat byte.toNat, unread⟩,
    ?_, answers_of_cons ?_ (Nat.le_succ _)⟩
  · simp only [ask, iterate, turn, readable, split, ↓reduceIte, List.map_cons]
  · simp [upcoming, answers, bytes, readable, split, Function.comp_def]

/-- Lines that are no word are passed over, each in one turn. -/
theorem ask_numbers (unread : List (List UInt8)) (enough : unread.length + 1 ≤ fuel) :
    ∃ answer next, ask false fuel ⟨[], unread⟩ = some (answer, next) ∧
      Answers false ⟨[], unread⟩ answer next := by
  induction unread generalizing fuel with
  | nil =>
      obtain ⟨fuel, rfl⟩ := Nat.exists_eq_add_of_le' enough
      exact ⟨none, ⟨[], []⟩, rfl, answers_of_exhausted false⟩
  | cons line unread ih =>
      obtain ⟨fuel, rfl⟩ := Nat.exists_eq_add_of_le' enough
      rw [List.length_cons]
      cases readable : text? line with
      | none => exact ⟨_, _, ask_of_unreadable readable unread⟩
      | some text =>
          cases read : Word.read (Text.trim text) with
          | ok value =>
              refine ⟨some value, ⟨[], unread⟩, ?_, answers_of_cons ?_ (Nat.le_succ _)⟩
              · simp only [ask, iterate, turn, readable, read, Bool.false_eq_true, ↓reduceIte]
              · simp [upcoming, answers, numbers, readable, read]
          | error fault =>
              obtain ⟨answer, next, asked, came⟩ := ih (Nat.le_add_left _ fuel)
              have passed (question : Nat) :
                  answerTo (upcoming false ⟨[], line :: unread⟩) question =
                    answerTo (upcoming false ⟨[], unread⟩) question := by
                simp only [upcoming, answers, numbers, readable, read, Bool.false_eq_true,
                  ↓reduceIte, List.map_nil, List.nil_append]
                exact answerTo_numbers _ _ question
              refine ⟨answer, next, ?_, ?_, ?_, Nat.le_succ_of_le came.unread_le⟩
              · rw [← asked]
                simp only [ask, iterate, turn, readable, read, Bool.false_eq_true, ↓reduceIte]
              · rw [passed]
                exact came.answer_eq
              · intro question
                rw [passed]
                exact came.later_eq question

/-- **One question.** A question is answered, within two turns more than there are lines. -/
theorem ask_answers (ascii : Bool) (reader : Reader) (enough : reader.unread.length + 2 ≤ fuel) :
    ∃ answer next, ask ascii fuel reader = some (answer, next) ∧
      Answers ascii reader answer next := by
  obtain ⟨buffered, unread⟩ := reader
  obtain ⟨more, rfl⟩ := Nat.exists_eq_add_of_le' enough
  cases buffered with
  | cons value buffered =>
      exact ⟨some value, ⟨buffered, unread⟩, rfl, answers_of_cons rfl (Nat.le_refl _)⟩
  | nil =>
      cases ascii with
      | false => exact ask_numbers unread (by dsimp only; omega)
      | true =>
          cases unread with
          | nil => exact ⟨none, ⟨[], []⟩, rfl, answers_of_exhausted true⟩
          | cons line unread =>
              cases readable : text? line with
              | none => exact ⟨_, _, ask_of_unreadable readable unread⟩
              | some text => exact ask_bytes readable unread

/-- **Questions.** Questions one after the other are answered with the answers to come. -/
theorem askAll_answers (ascii : Bool) (reader : Reader) (enough : reader.unread.length + 2 ≤ fuel)
    (count : Nat) :
    ∃ last, askAll ascii fuel count reader =
      some ((List.range count).map (answerTo (reader.upcoming ascii)), last) := by
  induction count generalizing reader with
  | zero => exact ⟨reader, rfl⟩
  | succ count ih =>
      obtain ⟨answer, next, asked, came⟩ := ask_answers ascii reader enough
      have left : next.unread.length + 2 ≤ fuel :=
        Nat.le_trans (Nat.add_le_add_right came.unread_le 2) enough
      obtain ⟨last, others⟩ := ih next left
      have later : answerTo (next.upcoming ascii) = answerTo (reader.upcoming ascii) ∘ Nat.succ :=
        funext came.later_eq
      refine ⟨last, ?_⟩
      simp only [askAll, asked, others, later, Option.map_some, List.range_succ_eq_map,
        List.map_cons, List.map_map, came.answer_eq]

end Reader

end StandardInput

namespace Bridge

/-- Asks the provider one question after the other. -/
def askAll : (count : Nat) → Bridge → List (Option Word)
  | 0, _ => []
  | count + 1, bridge => bridge.ask.1 :: askAll count bridge.ask.2

/-- A provider gives its answers in order, and then refuses. -/
theorem askAll_of_provider {bridge : Bridge} {answers : List (Option Word)}
    (provided : bridge.provider = some answers) (count : Nat) :
    bridge.askAll count = (List.range count).map (StandardInput.answerTo answers) := by
  induction count generalizing bridge answers with
  | zero => rfl
  | succ count ih =>
      rw [askAll, List.range_succ_eq_map, List.map_cons, List.map_map]
      cases answers with
      | nil =>
          have asked : bridge.ask = (none, { bridge with asked := bridge.asked + 1 }) := by
            rw [ask, provided]
          have later : { bridge with asked := bridge.asked + 1 }.askAll count =
              (List.range count).map (StandardInput.answerTo []) := ih provided
          rw [asked]
          exact congrArg (none :: ·) later
      | cons answer answers =>
          have asked : bridge.ask =
              (answer, { bridge with provider := some answers, asked := bridge.asked + 1 }) := by
            rw [ask, provided]
          rw [asked]
          exact congrArg (answer :: ·) (ih rfl)

end Bridge

namespace StandardInput

/-- **Answers follow the lines.** A text has lines in one way, and its lines have values: byte by
byte, those of all bytes of each line, without what ends it, and a line feed; otherwise the words
that lines denote, blanks around them apart, in order and without the other lines. Questions put one
after the other to standard input with this text are all answered, with those values and, behind the
last of them, with refusals. So are questions put to a machine's provider that has the readings of
the text for its answers. -/
theorem answers_follow_lines (ascii : Bool) (text : String) :
    ∃ rows values, AreLines '\n' text.toList rows ∧
      (∀ others, AreLines '\n' text.toList others → others = rows) ∧
      AreValues ascii rows values ∧
      (∃ fuel, ∀ count, ∃ last,
        askAll ascii fuel count ⟨[], lines text.toUTF8.toList⟩ =
          some ((List.range count).map (values[·]?), last)) ∧
      ∀ (bridge : Bridge) (count : Nat),
        (bridge.setProvider ((readings ascii text.toUTF8.toList).map (·.value))).askAll count =
          (List.range count).map (values[·]?) := by
  obtain ⟨rows, areLines⟩ := AreLines.exists_areLines '\n' text.toList
  obtain ⟨values, areValues⟩ := exists_areValues ascii rows
  have split : lines text.toUTF8.toList = rows.map encoded := by
    rw [Text.toList_toUTF8, lines_eq areLines.encoded]
  have given : answerTo (answers ascii (lines text.toUTF8.toList)) = (values[·]?) := by
    rw [split]
    exact funext areValues.answerTo_eq
  refine ⟨rows, values, areLines, fun _ => areLines.unique, areValues,
    ⟨(lines text.toUTF8.toList).length + 2, fun count => ?_⟩, fun bridge count => ?_⟩
  · obtain ⟨last, asked⟩ := Reader.askAll_answers ascii ⟨[], lines text.toUTF8.toList⟩
      (Nat.le_refl _) count
    refine ⟨last, asked.trans ?_⟩
    simp only [Reader.upcoming, List.map_nil, List.nil_append, given]
  · have answered : (readings ascii text.toUTF8.toList).map (·.value) =
        answers ascii (lines text.toUTF8.toList) := rfl
    rw [answered, Bridge.askAll_of_provider rfl, given]

end StandardInput

end Intcode
