import Intcode.Proofs.InstructionCells
import Intcode.Proofs.ListingLines
import Intcode.Proofs.ProgramText

/-! # Listings read again

The rows of a listing are aligned in columns, which may overflow, and lose the blanks at their ends.
Still the first two fields of a row, as blanks divide it, are the address of its line and its cells
(`Listing.table_text`): neither holds a blank, and there are always blanks behind both. Since the
cells of the lines are all cells, the program's own text can be put together from the listing
(`Listing.rawText_text`).

What stands behind them says no less about an instruction. The mnemonic names the operation, and an
operand is written in brackets, behind a hash or as a distance from the relative base, always with
its sign, so that its mode and its value can be told (`Listing.operandText_injective`). -/

namespace Intcode

namespace Text

variable {c : Char} {field front back blanks text : List Char} {fields : List (List Char)}

/-! ## Fields between blanks -/

/-- The fields of a text that blanks divide, as many as there may be. -/
def words (text : List Char) : List (List Char) :=
  (text.splitOnP isBlank).filter fun field => !field.isEmpty

theorem words_append_blank (blank : isBlank c = true) (front back : List Char) :
    words (front ++ c :: back) = words front ++ words back := by
  unfold words
  rw [List.splitOnP_append_cons _ _ blank, List.filter_append]

theorem words_of_plain (nonempty : field ≠ []) (plain : ∀ c ∈ field, isBlank c = false) :
    words field = [field] := by
  have filled : field.isEmpty = false := List.isEmpty_eq_false_iff.mpr nonempty
  rw [words, List.splitOnP_eq_singleton plain, List.filter_singleton, filled]
  rfl

theorem words_append_of_blanks (blank : ∀ c ∈ blanks, isBlank c = true) (back : List Char) :
    words (blanks ++ back) = words back := by
  induction blanks with
  | nil => rfl
  | cons c rest ih =>
      obtain ⟨here, others⟩ := List.forall_mem_cons.mp blank
      have behind : words ([] ++ c :: (rest ++ back)) = words [] ++ words (rest ++ back) :=
        words_append_blank here [] (rest ++ back)
      rw [ih others] at behind
      exact behind

/-- A field with blanks behind it is the first of its text. -/
theorem words_field (nonempty : field ≠ []) (plain : ∀ c ∈ field, isBlank c = false)
    (gap : blanks ≠ []) (blank : ∀ c ∈ blanks, isBlank c = true) (back : List Char) :
    words (field ++ (blanks ++ back)) = field :: words back := by
  cases blanks with
  | nil => exact absurd rfl gap
  | cons c rest =>
      obtain ⟨here, others⟩ := List.forall_mem_cons.mp blank
      rw [List.cons_append, words_append_blank here, words_of_plain nonempty plain,
        words_append_of_blanks others]
      rfl

theorem exists_trimRight (text : List Char) :
    ∃ blanks, (∀ c ∈ blanks, isBlank c = true) ∧ text = trimRight text ++ blanks := by
  refine ⟨(text.reverse.takeWhile isBlank).reverse, fun c among => ?_, ?_⟩
  · exact List.all_eq_true.mp List.all_takeWhile c (List.mem_reverse.mp among)
  · rw [trimRight, ← List.reverse_append, List.takeWhile_append_dropWhile, List.reverse_reverse]

/-- Blanks at the end of a text belong to no field. -/
theorem words_trimRight (text : List Char) : words (trimRight text) = words text := by
  obtain ⟨blanks, blank, whole⟩ := exists_trimRight text
  cases blanks with
  | nil => exact congrArg words (whole.trans (List.append_nil _)).symm
  | cons c rest =>
      obtain ⟨here, others⟩ := List.forall_mem_cons.mp blank
      have nothing : words rest = [] := by
        have behind := words_append_of_blanks others []
        rwa [List.append_nil] at behind
      conv_rhs => rw [whole, words_append_blank here, nothing, List.append_nil]

theorem mem_of_mem_trimRight (among : c ∈ trimRight text) : c ∈ text := by
  obtain ⟨blanks, _, whole⟩ := exists_trimRight text
  rw [whole]
  exact List.mem_append_left _ among

/-! ## Joined fields -/

theorem joinWith_ne_nil (separator : List Char) (nonempty : field ≠ [])
    (fields : List (List Char)) : joinWith separator (field :: fields) ≠ [] := by
  cases fields with
  | nil => exact nonempty
  | cons next fields =>
      rw [joinWith_cons _ _ (List.cons_ne_nil next fields), List.append_assoc]
      exact fun nothing => nonempty (List.append_eq_nil_iff.mp nothing).1

theorem joinWith_append {separator : List Char} {fields others : List (List Char)}
    (some : fields ≠ []) (more : others ≠ []) :
    joinWith separator (fields ++ others) =
      joinWith separator fields ++ separator ++ joinWith separator others := by
  induction fields with
  | nil => exact absurd rfl some
  | cons field fields ih =>
      cases fields with
      | nil => exact joinWith_cons separator field more
      | cons next fields =>
          have further : next :: fields ≠ [] := List.cons_ne_nil next fields
          have longer : next :: fields ++ others ≠ [] := List.cons_ne_nil next (fields ++ others)
          rw [List.cons_append, joinWith_cons separator field longer, ih further,
            joinWith_cons separator field further]
          simp only [List.append_assoc]

/-- Fields can be joined group by group, if there are some in each. -/
theorem joinWith_flatten {separator : List Char} {groups : List (List (List Char))}
    (filled : ∀ group ∈ groups, group ≠ []) :
    joinWith separator (groups.map (joinWith separator)) = joinWith separator groups.flatten := by
  induction groups with
  | nil => rfl
  | cons group groups ih =>
      obtain ⟨here, others⟩ := List.forall_mem_cons.mp filled
      cases groups with
      | nil => rw [List.map_singleton, List.flatten_singleton]; rfl
      | cons next groups =>
          obtain ⟨nextFilled, _⟩ := List.forall_mem_cons.mp others
          have more : (next :: groups).flatten ≠ [] := fun nothing =>
            nextFilled (List.append_eq_nil_iff.mp nothing).1
          have further : (next :: groups).map (joinWith separator) ≠ [] := List.cons_ne_nil _ _
          rw [List.map_cons, joinWith_cons separator _ further, ih others,
            ← joinWith_append here more]
          rfl

theorem append_joinWith (separator front field : List Char) (fields : List (List Char)) :
    front ++ joinWith separator (field :: fields) =
      joinWith separator ((front ++ field) :: fields) := by
  cases fields with
  | nil => rfl
  | cons next fields => simp only [joinWith, List.append_assoc]

/-- A text that was joined with a separator and more behind it is divided at the separator. -/
theorem splitOn_joinWith_more {separator : Char} {more field : List Char}
    {fields : List (List Char)} (apart : separator ∉ more) (here : separator ∉ field)
    (plain : ∀ other ∈ fields, separator ∉ other) :
    splitOn separator (joinWith (separator :: more) (field :: fields)) =
      field :: fields.map (more ++ ·) := by
  induction fields generalizing field with
  | nil => exact splitOn_of_notMem here
  | cons next fields ih =>
      obtain ⟨nextPlain, others⟩ := List.forall_mem_cons.mp plain
      have behind : separator ∉ more ++ next := fun among =>
        (List.mem_append.mp among).elim apart nextPlain
      rw [joinWith_cons _ _ (List.cons_ne_nil next fields), List.append_assoc, List.cons_append,
        splitOn_append here, append_joinWith, ih behind others, List.map_cons]

/-- As many fields, joined to the same text, are the same if the separator is in none of them. -/
theorem joinWith_injective {separator : Char} {more : List Char} {others : List (List Char)}
    (apart : separator ∉ more) (plain : ∀ field ∈ fields, separator ∉ field)
    (otherPlain : ∀ field ∈ others, separator ∉ field) (count : fields.length = others.length)
    (same : joinWith (separator :: more) fields = joinWith (separator :: more) others) :
    fields = others := by
  cases fields with
  | nil => exact (List.length_eq_zero_iff.mp count.symm).symm
  | cons field fields =>
      cases others with
      | nil => cases count
      | cons other others =>
          obtain ⟨here, behind⟩ := List.forall_mem_cons.mp plain
          obtain ⟨otherHere, otherBehind⟩ := List.forall_mem_cons.mp otherPlain
          have divided := congrArg (splitOn separator) same
          rw [splitOn_joinWith_more apart here behind,
            splitOn_joinWith_more apart otherHere otherBehind] at divided
          obtain ⟨rfl, rest⟩ := List.cons.inj divided
          rw [(List.map_inj_right fun _ _ => List.append_cancel_left).mp rest]

end Text

open Text

namespace Opcode

/-- The operation with a mnemonic. -/
def ofMnemonic? (mnemonic : String) : Option Opcode :=
  all.find? fun opcode => opcode.mnemonic = mnemonic

theorem ofMnemonic?_mnemonic (opcode : Opcode) : ofMnemonic? opcode.mnemonic = some opcode := by
  cases opcode <;> rfl

theorem mnemonic_injective {opcode other : Opcode} (same : opcode.mnemonic = other.mnemonic) :
    opcode = other := by
  have found := ofMnemonic?_mnemonic opcode
  rw [same, ofMnemonic?_mnemonic other] at found
  exact (Option.some.inj found).symm

end Opcode

theorem Word.write_injective {word other : Word}
    (same : Decimal.write word.toInt = Decimal.write other.toInt) : word = other := by
  have read := Word.read_write word
  rw [same, Word.read_write other] at read
  exact (Except.ok.inj read).symm

theorem Instruction.length_paramModes (instruction : Instruction) :
    instruction.paramModes.length = instruction.opcode.arity := by
  rw [paramModes, List.length_take, Vector.length_toList]
  exact Nat.min_eq_left instruction.opcode.arity_le

namespace Program

/-- The text of a program tells which it is. -/
theorem text_injective {program other : Program} (same : program.text = other.text) :
    program = other := by
  obtain ⟨cells⟩ := program
  obtain ⟨others⟩ := other
  cases cells with
  | nil =>
      cases others with
      | nil => rfl
      | cons cell others =>
          have read := parse_text (List.cons_ne_nil cell others : (mk (cell :: others)).cells ≠ [])
          rw [← same] at read
          cases read
  | cons cell cells =>
      have read := parse_text (List.cons_ne_nil cell cells : (mk (cell :: cells)).cells ≠ [])
      cases others with
      | nil =>
          rw [same] at read
          cases read
      | cons other others =>
          rw [same, parse_text (List.cons_ne_nil other others)] at read
          exact (Except.ok.inj read).symm

end Program

namespace Listing

variable {program other : Program} {line left right : Line} {mode otherMode : Mode}
  {operand otherOperand : Word} {c : Char} {instruction : Instruction} {limit : Nat}

/-! ## Operands -/

theorem mem_operandText (among : c ∈ operandText mode operand) :
    c ∈ ['[', ']', '#', 'r', 'b', '+'] ∨ c ∈ Decimal.write operand.toInt := by
  cases mode with
  | position | immediate =>
      simp only [operandText, List.mem_append, List.mem_cons, List.not_mem_nil, or_false] at among ⊢
      grind
  | relative =>
      simp only [operandText] at among
      split at among
      all_goals
        simp only [List.mem_append, List.mem_cons, List.not_mem_nil, or_false] at among ⊢
        grind

theorem ne_of_mem_write {value : Int} (among : c ∈ Decimal.write value) :
    c ≠ 'r' ∧ c ≠ '+' ∧ c ≠ '\n' := by
  rcases Decimal.isDigit_or_minus_of_mem_write among with digit | rfl
  · refine ⟨?_, ?_, ?_⟩ <;> rintro rfl <;> exact absurd digit (by decide)
  · decide

theorem comma_notMem_operandText (mode : Mode) (operand : Word) :
    ',' ∉ operandText mode operand := by
  intro among
  rcases mem_operandText among with sign | digit
  · exact absurd sign (by decide)
  · exact comma_notMem_write _ digit

theorem append_write_ne_append_plus (front rest : List Char) (value : Int) :
    front ++ Decimal.write value ≠ front ++ '+' :: rest := fun same => by
  have written : Decimal.write value = '+' :: rest := List.append_cancel_left same
  have among : '+' ∈ Decimal.write value := written ▸ List.mem_cons_self
  exact (ne_of_mem_write among).2.1 rfl

/-- The mode that the first characters of an operand stand for. -/
def modeOf? : List Char → Option Mode
  | '#' :: _ => some .immediate
  | '[' :: 'r' :: _ => some .relative
  | '[' :: _ => some .position
  | _ => none

theorem modeOf?_operandText (mode : Mode) (operand : Word) :
    modeOf? (operandText mode operand) = some mode := by
  cases mode with
  | immediate => rfl
  | position =>
      cases written : Decimal.write operand.toInt with
      | nil => exact absurd written (Decimal.write_ne_nil _)
      | cons c rest =>
          have unlike : c ≠ 'r' := (ne_of_mem_write (written ▸ List.mem_cons_self)).1
          simp only [operandText, written, List.cons_append, List.nil_append]
          unfold modeOf?
          split <;> simp_all
  | relative =>
      unfold operandText
      dsimp only
      split <;> rfl

theorem operandText_injective
    (same : operandText mode operand = operandText otherMode otherOperand) :
    mode = otherMode ∧ operand = otherOperand := by
  have modes : mode = otherMode := by
    have found := modeOf?_operandText mode operand
    rw [same, modeOf?_operandText] at found
    exact (Option.some.inj found).symm
  subst modes
  refine ⟨rfl, Word.write_injective ?_⟩
  cases mode with
  | position => exact List.append_cancel_right (List.cons.inj same).2
  | immediate => exact (List.cons.inj same).2
  | relative =>
      -- The brackets and what they begin with are the same, and only a plus sign can be left over.
      simp only [operandText] at same
      split at same <;> split at same
      · exact List.append_cancel_left (List.append_cancel_right same)
      · exact absurd (List.append_cancel_right same)
          (append_write_ne_append_plus ['[', 'r', 'b'] _ _)
      · exact absurd (List.append_cancel_right same).symm
          (append_write_ne_append_plus ['[', 'r', 'b'] _ _)
      · exact List.append_cancel_left (List.append_cancel_right same)

theorem comma_notMem_operandTexts {modes : List Mode} {values : List Word} :
    ∀ field ∈ List.zipWith operandText modes values, ',' ∉ field := by
  rw [← List.map_uncurry_zip_eq_zipWith]
  intro field among
  obtain ⟨pair, _, rfl⟩ := List.mem_map.mp among
  exact comma_notMem_operandText _ _

/-- Operands in a row are told apart at the commas. -/
theorem joined_operands_injective {modes otherModes : List Mode} {values otherValues : List Word}
    (paired : modes.length = values.length) (otherPaired : otherModes.length = otherValues.length)
    (count : modes.length = otherModes.length)
    (same : joinWith [',', ' '] (List.zipWith operandText modes values) =
      joinWith [',', ' '] (List.zipWith operandText otherModes otherValues)) :
    modes = otherModes ∧ values = otherValues := by
  have texts : List.zipWith operandText modes values =
      List.zipWith operandText otherModes otherValues := by
    refine joinWith_injective (by decide) comma_notMem_operandTexts
      comma_notMem_operandTexts ?_ same
    simp only [List.length_zipWith]
    omega
  have pairs : modes.zip values = otherModes.zip otherValues := by
    rw [← List.map_uncurry_zip_eq_zipWith, ← List.map_uncurry_zip_eq_zipWith] at texts
    refine (List.map_inj_right fun pair other equal => ?_).mp texts
    exact Prod.ext_iff.mpr (operandText_injective equal)
  constructor
  · rw [← List.map_fst_zip (Nat.le_of_eq paired), pairs,
      List.map_fst_zip (Nat.le_of_eq otherPaired)]
  · rw [← List.map_snd_zip (Nat.le_of_eq paired.symm), pairs,
      List.map_snd_zip (Nat.le_of_eq otherPaired.symm)]

/-! ## Lines of instructions -/

theorem length_of_mem_lines (among : line ∈ lines program)
    (holds : line.instruction = some instruction) : line.cells.length = instruction.width :=
  ((partition_lines program).described line among).length_eq holds

theorem same_instruction {instruction otherInstruction : Instruction}
    (among : left ∈ lines program) (amongOther : right ∈ lines other)
    (holds : left.instruction = some instruction)
    (holdsOther : right.instruction = some otherInstruction)
    (name : left.name = right.name) (operands : left.operands = right.operands) :
    instruction.opcode = otherInstruction.opcode ∧
      instruction.paramModes = otherInstruction.paramModes ∧
      left.cells.drop 1 = right.cells.drop 1 := by
  have length := length_of_mem_lines among holds
  have lengthOther := length_of_mem_lines amongOther holdsOther
  simp only [Line.name, holds, holdsOther] at name
  simp only [Line.operands, holds, holdsOther] at operands
  have opcode := Opcode.mnemonic_injective name
  refine ⟨opcode, joined_operands_injective ?_ ?_ ?_ operands⟩
  · rw [instruction.length_paramModes, List.length_drop, length, Instruction.width]
    omega
  · rw [otherInstruction.length_paramModes, List.length_drop, lengthOther, Instruction.width]
    omega
  · rw [instruction.length_paramModes, otherInstruction.length_paramModes, opcode]

/-! ## Rows -/

theorem raw_eq (line : Line) : line.raw = joinWith [','] (Program.mk line.cells).fields :=
  rfl

theorem isBlank_of_mem_raw (among : c ∈ line.raw) : isBlank c = false := by
  rw [raw_eq] at among
  exact Program.isBlank_of_mem_fields among

theorem newline_notMem_raw (line : Line) : '\n' ∉ line.raw := fun among =>
  absurd (isBlank_of_mem_raw among) (by decide)

theorem newline_notMem_name (line : Line) : '\n' ∉ line.name.toList := by
  unfold Line.name
  split
  · rename_i instruction _
    cases instruction.opcode <;> decide
  · decide

theorem newline_notMem_operands (line : Line) : '\n' ∉ line.operands := by
  intro among
  unfold Line.operands at among
  split at among
  · rcases mem_joinWith among with gap | ⟨field, inside, among⟩
    · exact absurd gap (by decide)
    · rw [← List.map_uncurry_zip_eq_zipWith] at inside
      obtain ⟨pair, _, rfl⟩ := List.mem_map.mp inside
      rcases mem_operandText among with sign | digit
      · exact absurd sign (by decide)
      · exact (ne_of_mem_write digit).2.2 rfl
  · rcases mem_joinWith among with gap | ⟨field, inside, among⟩
    · cases gap
    · obtain ⟨cell, _, rfl⟩ := List.mem_map.mp inside
      exact (ne_of_mem_write among).2.2 rfl

theorem newline_notMem_chars (line : Line) : '\n' ∉ line.chars := by
  have address : '\n' ∉ Decimal.writeNat line.address := fun among =>
    absurd (Decimal.isDigit_of_mem_writeNat among) (by decide)
  simp only [Line.chars, List.leftpad, List.rightpad, List.mem_append, List.mem_replicate,
    address, newline_notMem_raw, newline_notMem_name, newline_notMem_operands]
  simp

/-- The first two fields of a row are the address and the cells. -/
theorem words_chars (nonempty : line.cells ≠ []) :
    ∃ others, words line.chars = Decimal.writeNat line.address :: line.raw :: others := by
  have address : ∀ c ∈ Decimal.writeNat line.address, isBlank c = false := fun c among =>
    isBlank_of_isDigit (Decimal.isDigit_of_mem_writeNat among)
  have digits : Decimal.writeNat line.address ≠ [] := Nat.toDigits_ne_nil
  have written : line.raw ≠ [] := by
    rw [raw_eq]
    cases cells : line.cells with
    | nil => exact absurd cells nonempty
    | cons cell rest => exact joinWith_ne_nil [','] (Decimal.write_ne_nil _) _
  have spaces (count : Nat) : ∀ c ∈ List.replicate count ' ', isBlank c = true := by
    intro c among
    rw [List.eq_of_mem_replicate among]
    decide
  have gap : ∀ c ∈ List.replicate (24 - line.raw.length) ' ' ++ [' '], isBlank c = true :=
    List.forall_mem_append.mpr ⟨spaces _, spaces 1⟩
  have columns : line.chars =
      List.replicate (5 - (Decimal.writeNat line.address).length) ' ' ++
        (Decimal.writeNat line.address ++ (List.replicate 2 ' ' ++
          (line.raw ++ ((List.replicate (24 - line.raw.length) ' ' ++ [' ']) ++
            (line.name.toList.rightpad 5 ' ' ++ ([' '] ++ line.operands)))))) := by
    simp only [Line.chars, List.leftpad, List.rightpad, List.append_assoc]
    rfl
  refine ⟨words (line.name.toList.rightpad 5 ' ' ++ ([' '] ++ line.operands)), ?_⟩
  rw [columns, words_append_of_blanks (spaces _),
    words_field digits address (by decide) (spaces 2),
    words_field written (fun c => isBlank_of_mem_raw) (by simp) gap]

/-! ## Listings -/

/-- The rows of a text, each as its fields between blanks. -/
def table (text : String) : List (List (List Char)) :=
  (splitOn '\n' text.toList).map words

/-- The second fields of all rows of a text, with commas between them. -/
def rawText (text : String) : String :=
  String.ofList (joinWith [','] ((table text).filterMap (·[1]?)))

theorem lines_ne_nil (nonempty : program.cells ≠ []) : lines program ≠ [] := fun nothing => by
  have all := (partition_lines program).cells_eq
  rw [nothing] at all
  exact nonempty all.symm

/-- The rows of a listing are its lines, without the blanks at their ends. -/
theorem splitOn_text (nonempty : program.cells ≠ []) :
    splitOn '\n' (text program).toList =
      (lines program).map fun line => trimRight line.chars := by
  rw [text, String.toList_ofList]
  apply splitOn_joinWith
  · exact fun nothing => lines_ne_nil nonempty (List.map_eq_nil_iff.mp nothing)
  · intro row among within
    obtain ⟨line, _, rfl⟩ := List.mem_map.mp among
    exact newline_notMem_chars line (mem_of_mem_trimRight within)

theorem table_text (nonempty : program.cells ≠ []) :
    table (text program) = (lines program).map fun line => words line.chars := by
  rw [table, splitOn_text nonempty, List.map_map]
  apply List.map_congr_left
  intro line _
  rw [Function.comp_apply, words_trimRight]

/-- The cells of all lines, with commas between them, are the text of the program. -/
theorem joinWith_raw (program : Program) :
    joinWith [','] ((lines program).map Line.raw) = joinWith [','] program.fields := by
  let groups := (lines program).map fun line => (Program.mk line.cells).fields
  have filled : ∀ group ∈ groups, group ≠ [] := by
    intro group among nothing
    obtain ⟨line, inside, rfl⟩ := List.mem_map.mp among
    exact cells_ne_nil_of_mem_lines inside (List.map_eq_nil_iff.mp nothing)
  have rows : (lines program).map Line.raw = groups.map (joinWith [',']) := by
    rw [List.map_map]
    rfl
  have all : groups.flatten = program.fields := by
    rw [← List.flatMap_def, Program.fields, ← (partition_lines program).cells_eq, List.map_flatMap]
    rfl
  rw [rows, joinWith_flatten filled, all]

/-- The cells in a listing are the text of its program. -/
theorem rawText_text (program : Program) : rawText (text program) = program.text := by
  by_cases nonempty : program.cells = []
  · obtain ⟨cells⟩ := program
    subst nonempty
    have nothing : text ⟨[]⟩ = "" := by
      simp only [text, lines, sweep]
      rfl
    rw [nothing]
    rfl
  · have second : (table (text program)).filterMap (·[1]?) = (lines program).map Line.raw := by
      rw [table_text nonempty, List.filterMap_map, ← List.filterMap_eq_map]
      apply List.filterMap_congr
      intro line among
      obtain ⟨others, row⟩ := words_chars (cells_ne_nil_of_mem_lines among)
      simp only [Function.comp_apply, row, List.getElem?_cons_succ, List.getElem?_cons_zero]
    rw [rawText, second, joinWith_raw, Program.text_eq]

/-- **Listings lose nothing.** In the listing of a program with cells the first two fields of each
row, as blanks divide it, are the address of the line and its cells. The cells of all rows, with
commas between them, are the text of the program, which is read back as it; and different programs
have different listings. Lines of instructions with the same name and the same operands, as written,
have the same operation, the same modes and the same values of the operands. -/
theorem listings_lose_nothing :
    (∀ program : Program, program.cells ≠ [] →
      (table (text program)).map (·.take 2) =
        (lines program).map (fun line => [Decimal.writeNat line.address, line.raw]) ∧
      rawText (text program) = program.text ∧
      Program.parse (rawText (text program)) = .ok program) ∧
    (∀ program other : Program, text program = text other → program = other) ∧
    ∀ (program other : Program) (left right : Line) (instruction otherInstruction : Instruction),
      left ∈ lines program → right ∈ lines other → left.instruction = some instruction →
      right.instruction = some otherInstruction → left.name = right.name →
      left.operands = right.operands →
        instruction.opcode = otherInstruction.opcode ∧
        instruction.paramModes = otherInstruction.paramModes ∧
        left.cells.drop 1 = right.cells.drop 1 := by
  refine ⟨fun program nonempty => ⟨?_, rawText_text program, ?_⟩, ?_, ?_⟩
  · rw [table_text nonempty, List.map_map]
    apply List.map_congr_left
    intro line among
    obtain ⟨others, row⟩ := words_chars (cells_ne_nil_of_mem_lines among)
    simp only [Function.comp_apply, row, List.take_succ_cons, List.take_zero]
  · rw [rawText_text program]
    exact Program.parse_text nonempty
  · intro program other same
    apply Program.text_injective
    rw [← rawText_text program, same, rawText_text other]
  · intro program other left right instruction otherInstruction among amongOther holds holdsOther
    exact same_instruction among amongOther holds holdsOther

/-- Cells that overflow their column, the least word and an instruction that is cut off. -/
def sprawling : Program :=
  ⟨[21107, -9223372036854775808, -3, 7, 204, -5, 42, 1, 0]⟩

/-- An instruction that puts out seven. -/
def plainSeven : Instruction :=
  ⟨104, .output, #v[.immediate, .position, .position]⟩

/-- The same with digits above those in use. -/
def adornedSeven : Instruction :=
  ⟨12104, .output, #v[.immediate, .position, .position]⟩

theorem sprawling_and_sevens_lose_nothing :
    sprawling.cells ≠ [] ∧
    Program.parse (rawText (text sprawling)) = .ok sprawling ∧
    text ⟨[104, 7]⟩ ≠ text ⟨[12104, 7]⟩ ∧
    ∃ left ∈ lines ⟨[104, 7]⟩, ∃ right ∈ lines ⟨[12104, 7]⟩,
      left.instruction = some plainSeven ∧ right.instruction = some adornedSeven ∧
      left.name = right.name ∧ left.operands = right.operands ∧
      plainSeven.opcode = adornedSeven.opcode ∧
      plainSeven.paramModes = adornedSeven.paramModes ∧
      left.cells.drop 1 = right.cells.drop 1 := by
  obtain ⟨readBack, apart, alike⟩ := listings_lose_nothing
  have nonempty : sprawling.cells ≠ [] := List.cons_ne_nil _ _
  have differ : Program.mk [104, 7] ≠ Program.mk [12104, 7] := by decide
  have plain : ⟨0, [104, 7], some plainSeven⟩ ∈ lines ⟨[104, 7]⟩ := by decide +kernel
  have adorned : ⟨0, [12104, 7], some adornedSeven⟩ ∈ lines ⟨[12104, 7]⟩ := by decide +kernel
  exact ⟨nonempty, (readBack sprawling nonempty).2.2, fun same => differ (apart _ _ same),
    _, plain, _, adorned, rfl, rfl, rfl, rfl, alike _ _ _ _ _ _ plain adorned rfl rfl rfl rfl⟩

end Listing

end Intcode
