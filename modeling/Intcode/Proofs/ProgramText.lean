import Intcode.Program

/-! # Programs written and read again

An integer that was written is read back, as long as it is within the range
(`Text.Decimal.read_write`): the reading passes the same magnitudes that the writing took digits
off. What is written of a program are digits, minus signs and commas, so there is nothing to trim,
and its fields are the written cells. A program with cells is therefore read back from its text
(`Program.parse_text`), and its text is the canonical one among all texts that are read as it
(`Program.text_is_canonical`). -/

namespace Intcode

namespace Text

namespace Decimal

variable {limit : Nat} {beyond : Fault} {c : Char}

/-! ## Digits -/

theorem readMagnitude_append (limit : Nat) (beyond : Fault) (magnitude : Nat)
    (front back : List Char) :
    readMagnitude limit beyond magnitude (front ++ back) =
      (readMagnitude limit beyond magnitude front).bind
        fun read => readMagnitude limit beyond read back := by
  induction front generalizing magnitude with
  | nil => rfl
  | cons c rest ih =>
      simp only [List.cons_append, readMagnitude]
      cases digitValue? c with
      | none => rfl
      | some digit =>
          dsimp only
          split
          · rfl
          · exact ih _

theorem digitValue?_digitChar {digit : Nat} (small : digit < 10) :
    digitValue? digit.digitChar = some digit := by
  have all : ∀ digit < 10, digitValue? digit.digitChar = some digit := by decide
  exact all digit small

theorem readMagnitude_digitChar {magnitude digit : Nat} (small : digit < 10)
    (within : magnitude * 10 + digit ≤ limit) :
    readMagnitude limit beyond magnitude [digit.digitChar] = .ok (magnitude * 10 + digit) := by
  simp only [readMagnitude, digitValue?_digitChar small, Nat.not_lt.mpr within, ↓reduceIte]

/-- Digits that were written are read back. -/
theorem readMagnitude_writeNat (beyond : Fault) {n : Nat} (within : n ≤ limit) :
    readMagnitude limit beyond 0 (writeNat n) = .ok n := by
  induction n using Nat.strongRecOn with
  | ind n ih =>
      unfold writeNat at ih ⊢
      by_cases small : n < 10
      · rw [Nat.toDigits_of_lt_base small]
        have read : readMagnitude limit beyond 0 [n.digitChar] = .ok (0 * 10 + n) :=
          readMagnitude_digitChar small (by omega)
        rwa [Nat.zero_mul, Nat.zero_add] at read
      · have front := ih (n / 10) (by omega) (by omega)
        have whole : n / 10 * 10 + n % 10 = n := by omega
        have last : readMagnitude limit beyond (n / 10) [(n % 10).digitChar] =
            .ok (n / 10 * 10 + n % 10) :=
          readMagnitude_digitChar (Nat.mod_lt n (by omega)) (whole.symm ▸ within)
        rw [whole] at last
        rw [Nat.toDigits_of_base_le (by omega) (by omega), readMagnitude_append, front]
        exact last

theorem isDigit_of_mem_writeNat {n : Nat} (among : c ∈ writeNat n) : c.isDigit = true :=
  Nat.isDigit_of_mem_toDigits (by omega) (by omega) among

/-- What is written begins with a digit, so it has no plus sign and is not empty. -/
theorem exists_writeNat_eq_cons (n : Nat) :
    ∃ c rest, writeNat n = c :: rest ∧ c ≠ '+' ∧ c ≠ '-' := by
  cases written : writeNat n with
  | nil => exact absurd written Nat.toDigits_ne_nil
  | cons c rest =>
      have digit : c.isDigit = true :=
        isDigit_of_mem_writeNat (written ▸ List.mem_cons_self : c ∈ writeNat n)
      refine ⟨c, rest, rfl, ?_, ?_⟩
      · rintro rfl
        exact absurd digit (by decide)
      · rintro rfl
        exact absurd digit (by decide)

/-! ## Integers -/

/-- A text that begins with neither sign is the magnitude. -/
theorem read_of_unsigned (low high : Int) {rest : List Char} (plus : c ≠ '+') (minus : c ≠ '-') :
    read low high (c :: rest) =
      (readMagnitude high.toNat .tooLarge 0 (c :: rest)).map fun n => (n : Int) := by
  unfold read
  split <;> simp_all

/-- **Integers are read back.** -/
theorem read_write {low high value : Int} (least : low ≤ value) (greatest : value ≤ high) :
    read low high (write value) = .ok value := by
  cases value with
  | ofNat n =>
      have below : (n : Int) ≤ high := greatest
      have magnitude : readMagnitude high.toNat .tooLarge 0 (writeNat n) = .ok n :=
        readMagnitude_writeNat .tooLarge (by omega)
      obtain ⟨c, rest, written, plus, minus⟩ := exists_writeNat_eq_cons n
      simp only [write]
      rw [written] at magnitude ⊢
      rw [read_of_unsigned low high plus minus, magnitude]
      rfl
  | negSucc n =>
      have magnitude : readMagnitude (-low).toNat .tooSmall 0 (writeNat (n + 1)) = .ok (n + 1) :=
        readMagnitude_writeNat .tooSmall (by omega)
      have negative : low < 0 := by omega
      obtain ⟨c, rest, written, _⟩ := exists_writeNat_eq_cons (n + 1)
      simp only [write]
      rw [written] at magnitude ⊢
      simp only [read, magnitude, negative, ↓reduceIte]
      rfl

theorem write_ne_nil (value : Int) : write value ≠ [] := by
  cases value with
  | ofNat n => exact Nat.toDigits_ne_nil
  | negSucc n => exact List.cons_ne_nil _ _

/-- What is written consists of digits and the minus sign. -/
theorem isDigit_or_minus_of_mem_write {value : Int} (among : c ∈ write value) :
    c.isDigit = true ∨ c = '-' := by
  cases value with
  | ofNat n => exact .inl (isDigit_of_mem_writeNat among)
  | negSucc n =>
      rcases List.mem_cons.mp among with minus | later
      · exact .inr minus
      · exact .inl (isDigit_of_mem_writeNat later)

end Decimal

/-! ## Blanks and separators -/

theorem trim_of_no_blank {text : List Char} (plain : ∀ c ∈ text, isBlank c = false) :
    trim text = text := by
  have kept : ∀ characters : List Char, (∀ c ∈ characters, isBlank c = false) →
      characters.dropWhile isBlank = characters := by
    intro characters plain
    cases characters with
    | nil => rfl
    | cons c rest => rw [List.dropWhile_cons, plain c List.mem_cons_self]; rfl
  rw [trim, kept text plain, trimRight,
    kept text.reverse fun c among => plain c (List.mem_reverse.mp among), List.reverse_reverse]

theorem mem_joinWith {separator : List Char} {fields : List (List Char)} {c : Char}
    (among : c ∈ joinWith separator fields) :
    c ∈ separator ∨ ∃ field ∈ fields, c ∈ field := by
  induction fields with
  | nil => cases among
  | cons field fields ih =>
      cases fields with
      | nil => exact .inr ⟨field, List.mem_cons_self, among⟩
      | cons next fields =>
          rw [joinWith_cons _ _ (List.cons_ne_nil next fields), List.append_assoc,
            List.mem_append, List.mem_append] at among
          rcases among with here | between | later
          · exact .inr ⟨field, List.mem_cons_self, here⟩
          · exact .inl between
          · rcases ih later with between | ⟨other, inside, there⟩
            · exact .inl between
            · exact .inr ⟨other, List.mem_cons_of_mem _ inside, there⟩

theorem mem_joinWith_of_mem {separator field : List Char} {fields : List (List Char)} {c : Char}
    (inside : field ∈ fields) (among : c ∈ field) : c ∈ joinWith separator fields := by
  induction fields with
  | nil => cases inside
  | cons first fields ih =>
      cases fields with
      | nil => rwa [List.mem_singleton.mp inside] at among
      | cons next fields =>
          rw [joinWith_cons _ _ (List.cons_ne_nil next fields), List.mem_append]
          rcases List.mem_cons.mp inside with rfl | later
          · exact .inl (List.mem_append_left _ among)
          · exact .inr (ih later)

theorem isBlank_of_isDigit {c : Char} (digit : c.isDigit = true) : isBlank c = false := by
  obtain ⟨least, greatest⟩ : 48 ≤ c.toNat ∧ c.toNat ≤ 57 := Char.isDigit_iff_toNat.mp digit
  simp only [isBlank, Bool.or_eq_false_iff, Bool.and_eq_false_iff, decide_eq_false_iff_not,
    beq_eq_false_iff_ne]
  omega

theorem isBlank_of_mem_write {value : Int} {c : Char} (among : c ∈ Decimal.write value) :
    isBlank c = false := by
  rcases Decimal.isDigit_or_minus_of_mem_write among with digit | rfl
  · exact isBlank_of_isDigit digit
  · decide

theorem comma_notMem_write (value : Int) : ',' ∉ Decimal.write value := fun among => by
  rcases Decimal.isDigit_or_minus_of_mem_write among with digit | minus
  · exact absurd digit (by decide)
  · exact absurd minus (by decide)

end Text

open Text

/-- Every word is read back. -/
theorem Word.read_write (word : Word) : Word.read (Decimal.write word.toInt) = .ok word := by
  have least : Word.least ≤ word.toInt := word.le_toInt
  have greatest : word.toInt ≤ Word.greatest := Int.le_sub_one_of_lt word.toInt_lt
  rw [read, Decimal.read_write least greatest]
  exact congrArg Except.ok (Int64.ofInt_toInt word)

namespace Program

variable {source : String} {program : Program}

/-! ## Programs -/

/-- The cells of a program, each written. -/
def fields (program : Program) : List (List Char) :=
  program.cells.map fun cell => Decimal.write cell.toInt

theorem text_eq (program : Program) :
    program.text = String.ofList (joinWith [','] program.fields) :=
  rfl

theorem isBlank_of_mem_fields {c : Char} (among : c ∈ joinWith [','] program.fields) :
    isBlank c = false := by
  rcases mem_joinWith among with comma | ⟨field, inside, among⟩
  · rw [List.mem_singleton.mp comma]
    decide
  · obtain ⟨cell, _, rfl⟩ := List.mem_map.mp inside
    exact isBlank_of_mem_write among

theorem readFields_fields (index : Nat) (program : Program) :
    readFields index program.fields = .ok program.cells := by
  obtain ⟨cells⟩ := program
  unfold fields
  induction cells generalizing index with
  | nil => rfl
  | cons cell rest ih =>
      simp only [List.map_cons, readFields, trim_of_no_blank fun c => isBlank_of_mem_write,
        Word.read_write]
      exact congrArg (Except.map (cell :: ·)) (ih (index + 1))

/-- There are as many cells as fields. -/
theorem length_of_readFields {index : Nat} {fields : List (List Char)} {cells : List Word}
    (read : readFields index fields = .ok cells) : cells.length = fields.length := by
  induction fields generalizing index cells with
  | nil =>
      cases read
      rfl
  | cons field rest ih =>
      unfold readFields at read
      split at read
      · cases read
      · cases later : readFields (index + 1) rest with
        | error error =>
            rw [later] at read
            cases read
        | ok others =>
            rw [later] at read
            cases read
            exact congrArg (· + 1) (ih later)

theorem parse_of_written (written : trim source.toList ≠ []) :
    parse source = (readFields 0 (splitOn ',' (trim source.toList))).map Program.mk := by
  unfold parse
  split
  · rename_i nothing
    exact absurd nothing written
  · rfl

/-- A program that was read has a cell. -/
theorem cells_ne_nil_of_parse (accepted : parse source = .ok program) : program.cells ≠ [] := by
  have written : trim source.toList ≠ [] := fun nothing => by
    simp only [parse, nothing] at accepted
    cases accepted
  rw [parse_of_written written] at accepted
  cases read : readFields 0 (splitOn ',' (trim source.toList)) with
  | error error =>
      rw [read] at accepted
      cases accepted
  | ok cells =>
      rw [read] at accepted
      cases accepted
      have length := length_of_readFields read
      have fields := List.length_pos_iff.mpr (splitOn_ne_nil ',' (trim source.toList))
      exact List.length_pos_iff.mp (length ▸ fields)

/-- **Programs are read back.** -/
theorem parse_text (nonempty : program.cells ≠ []) : parse program.text = .ok program := by
  have fields : program.fields ≠ [] := by
    unfold fields
    rwa [ne_eq, List.map_eq_nil_iff]
  have split : splitOn ',' (joinWith [','] program.fields) = program.fields := by
    apply splitOn_joinWith fields
    intro field among
    obtain ⟨cell, _, rfl⟩ := List.mem_map.mp among
    exact comma_notMem_write cell.toInt
  have trimmed : trim program.text.toList = joinWith [','] program.fields := by
    rw [text_eq, String.toList_ofList, trim_of_no_blank fun c => isBlank_of_mem_fields]
  -- If nothing were written, the only field would be empty, which no written cell is.
  have written : joinWith [','] program.fields ≠ [] := fun nothing => by
    rw [nothing] at split
    have empty : [] ∈ program.fields := split ▸ List.mem_cons_self
    obtain ⟨cell, _, unwritten⟩ := List.mem_map.mp empty
    exact Decimal.write_ne_nil cell.toInt unwritten
  rw [parse_of_written (trimmed ▸ written), trimmed, split, readFields_fields]
  rfl

/-- **The text of a program is canonical.** Whatever words are the cells of a program, as long as
there is one, the program is read back from its text. In particular the text of a program that was
read from another text, with blanks, plus signs or leading zeros, is read as the same program, and
programs that were read have the same text if and only if they have the same cells. -/
theorem text_is_canonical :
    (∀ cells : List Word, cells ≠ [] → parse (mk cells).text = .ok (mk cells)) ∧
    (∀ source program, parse source = .ok program → parse program.text = .ok program) ∧
    ∀ source other left right, parse source = .ok left → parse other = .ok right →
      (left.text = right.text ↔ left.cells = right.cells) := by
  refine ⟨fun cells nonempty => parse_text nonempty, fun source program accepted =>
    parse_text (cells_ne_nil_of_parse accepted), ?_⟩
  intro source other left right accepted acceptedOther
  constructor
  · intro same
    have read := parse_text (cells_ne_nil_of_parse accepted)
    rw [same, parse_text (cells_ne_nil_of_parse acceptedOther)] at read
    exact congrArg cells (Except.ok.inj read).symm
  · intro same
    exact congrArg (fun cells => (mk cells).text) same

/-- The least and the greatest word are read back, and texts with blanks, signs and leading zeros are
read as programs that have the same text. -/
theorem extremes_are_canonical :
    [Int64.minValue, 0, Int64.maxValue] ≠ [] ∧
    parse (mk [Int64.minValue, 0, Int64.maxValue]).text =
      .ok (mk [Int64.minValue, 0, Int64.maxValue]) ∧
    ∃ left right, parse " +7,\t-00 " = .ok left ∧ parse "007,0" = .ok right ∧
      parse left.text = .ok left ∧ left.text = right.text := by
  obtain ⟨writes, reads, equal⟩ := text_is_canonical
  have extremes : [Int64.minValue, 0, Int64.maxValue] ≠ [] := List.cons_ne_nil _ _
  have padded : parse " +7,\t-00 " = .ok (mk [7, 0]) := by rfl
  have zeros : parse "007,0" = .ok (mk [7, 0]) := by rfl
  exact ⟨extremes, writes _ extremes, mk [7, 0], mk [7, 0], padded, zeros, reads _ _ padded,
    (equal _ _ _ _ padded zeros).mpr rfl⟩

end Program

end Intcode
