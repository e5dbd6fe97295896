import Intcode.Proofs.Execution
import Mathlib.Algebra.BigOperators.Fin
import Mathlib.Tactic.Ring

/-! # The cells that hold instructions

A cell that holds an instruction ends in the code of an operation. The places above have a digit
for the mode of each parameter, the first parameter's lowest, and what stands in front of these does
not matter (`Instruction.Encodes`). Decoding accepts these cells and no others, and any other is
refused for the first thing that is wrong with it: its code before its modes, and a mode that is
none before one that the operation cannot have (`Instruction.Refused`).

Both rest on one fact about numbers: their decimal digits, from the hundreds up, are the only ones
with which they can be written (`Instruction.places_of_sum`). -/

namespace Intcode

namespace Instruction

/-! ## Decimal places -/

section Places

variable {count : Nat} {number low above : Int}

theorem sum_places_succ (digits : Fin (count + 1) → Int) (above : Int) :
    ∑ place, digits place * 10 ^ (place.val + 2) + above * 10 ^ (count + 1 + 2) =
      ∑ place : Fin count, digits place.castSucc * 10 ^ (place.val + 2) +
        (digits (Fin.last count) + 10 * above) * 10 ^ (count + 2) := by
  rw [Fin.sum_univ_castSucc]
  simp only [Fin.val_castSucc, Fin.val_last]
  ring

theorem div_place_succ (number : Int) (place : Nat) :
    number / 10 ^ (place + 1) = number / 10 ^ place / 10 := by
  rw [Int.ediv_ediv_of_nonneg (Int.pow_nonneg (by decide)), Int.pow_succ]

/-- The digits with which a number is written, above the two lowest places, are its own. -/
theorem places_of_sum {digits : Fin count → Int} (inside : 0 ≤ low ∧ low < 100)
    (small : ∀ place, 0 ≤ digits place ∧ digits place < 10)
    (sum : number = low + (∑ place, digits place * 10 ^ (place.val + 2) +
      above * 10 ^ (count + 2))) :
    number % 100 = low ∧ (∀ place, number / 10 ^ (place.val + 2) % 10 = digits place) ∧
      number / 10 ^ (count + 2) = above := by
  induction count generalizing above with
  | zero =>
      simp only [Finset.univ_eq_empty, Finset.sum_empty, Int.zero_add, Nat.zero_add] at sum ⊢
      exact ⟨by omega, fun place => place.elim0, by omega⟩
  | succ count ih =>
      rw [sum_places_succ] at sum
      obtain ⟨lowest, places, rest⟩ := ih (fun place => small place.castSucc) sum
      have top := small (Fin.last count)
      refine ⟨lowest, fun place => ?_, ?_⟩
      · cases place using Fin.lastCases with
        | last =>
            rw [Fin.val_last, rest]
            omega
        | cast place => exact places place
      · rw [Nat.add_right_comm count, div_place_succ number (count + 2), rest]
        omega

/-- A number is written with its digits. -/
theorem sum_of_places (number : Int) (count : Nat) :
    number = number % 100 +
      (∑ place : Fin count, number / 10 ^ (place.val + 2) % 10 * 10 ^ (place.val + 2) +
        number / 10 ^ (count + 2) * 10 ^ (count + 2)) := by
  induction count with
  | zero =>
      simp only [Finset.univ_eq_empty, Finset.sum_empty, Int.zero_add, Nat.zero_add]
      omega
  | succ count ih =>
      have top : number / 10 ^ (count + 2) % 10 + 10 * (number / 10 ^ (count + 1 + 2)) =
          number / 10 ^ (count + 2) := by
        rw [Nat.add_right_comm count, div_place_succ number (count + 2)]
        omega
      rw [sum_places_succ fun place => number / 10 ^ (place.val + 2) % 10, Fin.val_last, top]
      exact ih

end Places

end Instruction

/-! ## Codes and digits -/

namespace Opcode

variable {opcode : Opcode} {code : Word}

theorem ofCode?_eq_some_iff : ofCode? code = some opcode ↔ opcode.code = code := by
  constructor
  · intro found
    unfold ofCode? at found
    repeat' split at found
    all_goals cases found <;> exact Eq.symm ‹_›
  · rintro rfl
    cases opcode <;> rfl

theorem ofCode?_eq_none_iff : ofCode? code = none ↔ ∀ opcode : Opcode, opcode.code ≠ code := by
  simp only [Option.eq_none_iff_forall_ne_some, ne_eq, ofCode?_eq_some_iff]

theorem arity_le (opcode : Opcode) : opcode.arity ≤ maxParams := by
  cases opcode <;> decide

theorem code_bounds (opcode : Opcode) : 0 < opcode.code.toInt ∧ opcode.code.toInt < 100 := by
  cases opcode <;> decide

end Opcode

theorem Instruction.width_le (instruction : Instruction) : instruction.width ≤ 4 :=
  Nat.add_le_add_left instruction.opcode.arity_le 1

namespace Mode

variable {mode : Mode} {digit : Word}

theorem ofDigit?_eq_some_iff : ofDigit? digit = some mode ↔ mode.digit = digit := by
  constructor
  · intro found
    unfold ofDigit? at found
    repeat' split at found
    all_goals cases found <;> exact Eq.symm ‹_›
  · rintro rfl
    cases mode <;> rfl

theorem ofDigit?_eq_none_iff : ofDigit? digit = none ↔ ∀ mode : Mode, mode.digit ≠ digit := by
  simp only [Option.eq_none_iff_forall_ne_some, ne_eq, ofDigit?_eq_some_iff]

theorem digit_bounds (mode : Mode) : 0 ≤ mode.digit.toInt ∧ mode.digit.toInt < 10 := by
  cases mode <;> decide

end Mode

namespace Instruction

variable {raw : Word} {opcode : Opcode} {mode : Mode} {modes : Vector Mode maxParams}
  {param : Fin maxParams} {error : Error} {instruction : Instruction}

/-! ## What a cell says -/

/-- The two low digits of a cell are an operation's code. -/
def Names (raw : Word) (opcode : Opcode) : Prop :=
  opcode.code.toInt = raw.toInt.tmod 100

/-- The digit of a cell for a parameter is that of a mode. -/
def Marks (raw : Word) (param : Fin maxParams) (mode : Mode) : Prop :=
  mode.digit.toInt = (raw.toInt.tdiv (10 ^ (param.val + 2))).tmod 10

/-- Modes that an operation can have: those past its parameters are `position`, and the parameter
it writes names a place. -/
structure Admits (opcode : Opcode) (modes : Vector Mode maxParams) : Prop where
  unused : ∀ param : Fin maxParams, opcode.arity ≤ param.val → modes.get param = .position
  writable : ∀ target, opcode.writeParam? = some target → modes.get target ≠ .immediate

/-- The cell of an instruction: the operation's code, the digits of the modes in use, and anything
in front of them. -/
structure Encodes (raw : Word) (opcode : Opcode) (modes : Vector Mode maxParams) : Prop
    extends Admits opcode modes where
  digits : ∃ above : Nat, raw.toInt = opcode.code.toInt +
    (∑ param : Fin opcode.arity,
        (modes.get (param.castLE opcode.arity_le)).digit.toInt * 10 ^ (param.val + 2) +
      above * 10 ^ (opcode.arity + 2))

/-- What is wrong with a cell that holds no instruction. -/
inductive Refused (raw : Word) : Error → Prop
  /-- No operation has its code. -/
  | code (unnamed : ∀ opcode, ¬ Names raw opcode) : Refused raw (Error.invalidOpcode raw)
  /-- No mode has the digit for a parameter, the lowest of which this is true. -/
  | mode {opcode : Opcode} {param : Fin maxParams} (named : Names raw opcode)
      (used : param.val < opcode.arity)
      (lower : ∀ other < param, ∃ mode, Marks raw other mode)
      (unmarked : ∀ mode, ¬ Marks raw param mode) : Refused raw (Error.invalidMode raw param)
  /-- All digits are those of modes, but that of the parameter to be written is `immediate`. -/
  | target {opcode : Opcode} {target : Fin maxParams} (named : Names raw opcode)
      (marked : ∀ param : Fin maxParams, param.val < opcode.arity → ∃ mode, Marks raw param mode)
      (writes : opcode.writeParam? = some target) (immediate : Marks raw target .immediate) :
      Refused raw (Error.immediateWrite raw target)

theorem Names.pos (named : Names raw opcode) : 0 < raw.toInt := by
  have positive := opcode.code_bounds.1
  rw [named] at positive
  by_contra nonpositive
  have nonnegative := Int.tmod_nonneg 100 (Int.neg_nonneg_of_nonpos (Int.not_lt.mp nonpositive))
  rw [Int.neg_tmod] at nonnegative
  omega

theorem names_iff : Names raw opcode ↔ opcode.code = raw % 100 := by
  rw [← Int64.toInt_inj, Int64.toInt_mod]
  exact Iff.rfl

theorem toInt_modeDigit (raw : Word) (param : Fin maxParams) :
    (modeDigit raw param).toInt = (raw.toInt.tdiv (10 ^ (param.val + 2))).tmod 10 := by
  match param with
  | 0 | 1 | 2 =>
      rw [modeDigit, Int64.toInt_mod, Int64.toInt_div_of_ne_right _ _ (by decide)]
      rfl

theorem marks_iff : Marks raw param mode ↔ mode.digit = modeDigit raw param := by
  rw [← Int64.toInt_inj, toInt_modeDigit]
  exact Iff.rfl

/-! ## Modes -/

theorem modeAt_eq_ok_iff (used : param.val < opcode.arity) :
    modeAt raw opcode param = .ok mode ↔ Marks raw param mode := by
  rw [modeAt, if_pos used, marks_iff, ← Mode.ofDigit?_eq_some_iff]
  cases Mode.ofDigit? (modeDigit raw param) with
  | none => exact ⟨nofun, nofun⟩
  | some found => rw [Except.ok.injEq, Option.some.injEq]

theorem modeAt_of_unused (unused : opcode.arity ≤ param.val) :
    modeAt raw opcode param = .ok .position :=
  if_neg (Nat.not_lt.mpr unused)

theorem modeAt_eq_error_iff : modeAt raw opcode param = .error error ↔
    param.val < opcode.arity ∧ (∀ mode, ¬ Marks raw param mode) ∧
      error = Error.invalidMode raw param := by
  simp only [marks_iff, ← Mode.ofDigit?_eq_none_iff]
  unfold modeAt
  split
  · rename_i used
    cases Mode.ofDigit? (modeDigit raw param) with
    | none => simp only [used, Except.error.injEq, true_and, eq_comm]
    | some found => simp only [reduceCtorEq, false_and, and_false]
  · rename_i unused
    simp only [unused, reduceCtorEq, false_and]

theorem forall_params {holds : Fin maxParams → Prop} :
    (∀ param, holds param) ↔ holds firstParam ∧ holds secondParam ∧ holds thirdParam := by
  rw [Fin.forall_fin_succ, Fin.forall_fin_two]
  rfl

theorem modesOf_eq_ok_iff :
    modesOf raw opcode = .ok modes ↔ ∀ param, modeAt raw opcode param = .ok (modes.get param) := by
  rw [forall_params]
  constructor
  · intro found
    obtain ⟨first, atFirst, found⟩ := bind_eq_ok.mp found
    obtain ⟨second, atSecond, found⟩ := bind_eq_ok.mp found
    obtain ⟨third, atThird, found⟩ := bind_eq_ok.mp found
    cases found
    exact ⟨atFirst, atSecond, atThird⟩
  · rintro ⟨atFirst, atSecond, atThird⟩
    have same : #v[modes.get firstParam, modes.get secondParam, modes.get thirdParam] = modes := by
      apply Vector.ext
      intro index inside
      match index with
      | 0 | 1 | 2 => rfl
    rw [modesOf, atFirst, atSecond, atThird]
    exact congrArg Except.ok same

/-- The lowest parameter without a mode decides the error. -/
theorem modesOf_eq_error_iff :
    modesOf raw opcode = .error error ↔ ∃ param, modeAt raw opcode param = .error error ∧
      ∀ other < param, ∃ mode, modeAt raw opcode other = .ok mode := by
  unfold modesOf
  constructor
  · intro failed
    rcases bind_eq_error.mp failed with atFirst | ⟨first, atFirst, failed⟩
    · exact ⟨firstParam, atFirst, fun other below => absurd below (Fin.not_lt_zero other)⟩
    · rcases bind_eq_error.mp failed with atSecond | ⟨second, atSecond, failed⟩
      · refine ⟨secondParam, atSecond, fun other below => ?_⟩
        match other with
        | 0 => exact ⟨first, atFirst⟩
      · rcases bind_eq_error.mp failed with atThird | ⟨third, atThird, failed⟩
        · refine ⟨thirdParam, atThird, fun other below => ?_⟩
          match other with
          | 0 => exact ⟨first, atFirst⟩
          | 1 => exact ⟨second, atSecond⟩
        · cases failed
  · rintro ⟨param, failed, lower⟩
    match param with
    | 0 => exact bind_eq_error.mpr (.inl failed)
    | 1 =>
        obtain ⟨first, atFirst⟩ := lower 0 (by decide)
        exact bind_eq_error.mpr (.inr ⟨first, atFirst, bind_eq_error.mpr (.inl failed)⟩)
    | 2 =>
        obtain ⟨first, atFirst⟩ := lower 0 (by decide)
        obtain ⟨second, atSecond⟩ := lower 1 (by decide)
        refine bind_eq_error.mpr (.inr ⟨first, atFirst, ?_⟩)
        exact bind_eq_error.mpr (.inr ⟨second, atSecond, bind_eq_error.mpr (.inl failed)⟩)

/-! ## Decoding -/

theorem immediateTarget?_eq_some_iff {target : Fin maxParams} :
    immediateTarget? opcode modes = some target ↔
      opcode.writeParam? = some target ∧ modes.get target = .immediate := by
  rw [immediateTarget?, Option.filter_eq_some_iff, decide_eq_true_eq]
  exact Iff.rfl

theorem immediateTarget?_eq_none_iff : immediateTarget? opcode modes = none ↔
    ∀ target, opcode.writeParam? = some target → modes.get target ≠ .immediate := by
  simp only [immediateTarget?, Option.filter_eq_none_iff, decide_eq_true_eq, ne_eq]
  exact Iff.rfl

theorem decode_of_marked (named : Names raw opcode) (marked : modesOf raw opcode = .ok modes) :
    decode raw =
      match immediateTarget? opcode modes with
      | some target => .error (Error.immediateWrite raw target)
      | none => .ok { raw, opcode, modes } := by
  rw [decode, Opcode.ofCode?_eq_some_iff.mpr (names_iff.mp named)]
  dsimp only
  rw [marked]
  rfl

theorem decode_of_unmarked (named : Names raw opcode) (failed : modesOf raw opcode = .error error) :
    decode raw = .error error := by
  rw [decode, Opcode.ofCode?_eq_some_iff.mpr (names_iff.mp named)]
  dsimp only
  rw [failed]
  rfl

theorem decode_of_unnamed (unnamed : ∀ opcode, ¬ Names raw opcode) :
    decode raw = .error (Error.invalidOpcode raw) := by
  have none := Opcode.ofCode?_eq_none_iff.mpr fun opcode same => unnamed opcode (names_iff.mpr same)
  rw [decode, none]

theorem marks_iff_of_nonneg (nonnegative : 0 ≤ raw.toInt) :
    Marks raw param mode ↔ mode.digit.toInt = raw.toInt / 10 ^ (param.val + 2) % 10 := by
  have quotient : 0 ≤ raw.toInt / 10 ^ (param.val + 2) :=
    Int.ediv_nonneg nonnegative (Int.pow_nonneg (by decide))
  rw [Marks, Int.tdiv_eq_ediv_of_nonneg nonnegative, Int.tmod_eq_emod_of_nonneg quotient]

theorem Marks.unique {other : Mode} (marks : Marks raw param mode)
    (again : Marks raw param other) : mode = other := by
  rw [marks_iff, ← Mode.ofDigit?_eq_some_iff] at marks again
  exact Option.some.inj (marks.symm.trans again)

/-- A cell encodes the instruction that its digits name and mark. -/
theorem encodes_iff : Encodes raw opcode modes ↔
    Names raw opcode ∧ modesOf raw opcode = .ok modes ∧ immediateTarget? opcode modes = none := by
  rw [modesOf_eq_ok_iff, immediateTarget?_eq_none_iff]
  constructor
  · rintro ⟨⟨unused, writable⟩, above, sum⟩
    obtain ⟨low, places, rest⟩ :=
      places_of_sum ⟨Int.le_of_lt opcode.code_bounds.1, opcode.code_bounds.2⟩
        (fun _ => Mode.digit_bounds _) sum
    have nonnegative : 0 ≤ raw.toInt := by
      have front : (0 : Int) < 10 ^ (opcode.arity + 2) := Int.pow_pos (by decide)
      rw [← Int.ediv_nonneg_iff_of_pos front, rest]
      exact Int.natCast_nonneg above
    refine ⟨?_, fun param => ?_, writable⟩
    · rw [Names, Int.tmod_eq_emod_of_nonneg nonnegative, low]
    · by_cases used : param.val < opcode.arity
      · rw [modeAt_eq_ok_iff used, marks_iff_of_nonneg nonnegative]
        exact (places ⟨param.val, used⟩).symm
      · rw [modeAt_of_unused (Nat.not_lt.mp used), unused param (Nat.not_lt.mp used)]
  · rintro ⟨named, marked, writable⟩
    have nonnegative := Int.le_of_lt named.pos
    have rest : 0 ≤ raw.toInt / 10 ^ (opcode.arity + 2) :=
      Int.ediv_nonneg nonnegative (Int.pow_nonneg (by decide))
    refine ⟨⟨fun param past => ?_, writable⟩, (raw.toInt / 10 ^ (opcode.arity + 2)).toNat, ?_⟩
    · have mode := marked param
      rw [modeAt_of_unused past] at mode
      exact (Except.ok.inj mode).symm
    · have digits (param : Fin opcode.arity) :
          (modes.get (param.castLE opcode.arity_le)).digit.toInt =
            raw.toInt / 10 ^ (param.val + 2) % 10 := by
        have mode := (modeAt_eq_ok_iff param.isLt).mp (marked (param.castLE opcode.arity_le))
        exact (marks_iff_of_nonneg nonnegative).mp mode |>.trans (by rw [Fin.val_castLE])
      rw [Int.toNat_of_nonneg rest, named, Int.tmod_eq_emod_of_nonneg nonnegative]
      simp only [digits]
      exact sum_of_places raw.toInt opcode.arity

theorem Encodes.decode_eq (encodes : Encodes raw opcode modes) :
    decode raw = .ok { raw, opcode, modes } := by
  obtain ⟨named, marked, writable⟩ := encodes_iff.mp encodes
  rw [decode_of_marked named marked, writable]

theorem Refused.decode_eq (refused : Refused raw error) : decode raw = .error error := by
  cases refused with
  | code unnamed => exact decode_of_unnamed unnamed
  | @mode opcode param named used lower unmarked =>
      refine decode_of_unmarked named (modesOf_eq_error_iff.mpr ⟨param, ?_, fun other below => ?_⟩)
      · exact modeAt_eq_error_iff.mpr ⟨used, unmarked, rfl⟩
      · obtain ⟨mode, marks⟩ := lower other below
        exact ⟨mode, (modeAt_eq_ok_iff (Nat.lt_trans below used)).mpr marks⟩
  | @target opcode target named marked writes immediate =>
      cases found : modesOf raw opcode with
      | error error =>
          obtain ⟨param, failed, _⟩ := modesOf_eq_error_iff.mp found
          obtain ⟨used, unmarked, _⟩ := modeAt_eq_error_iff.mp failed
          obtain ⟨mode, marks⟩ := marked param used
          exact absurd marks (unmarked mode)
      | ok modes =>
          have used := Opcode.writeParam?_lt_arity writes
          have marks := (modeAt_eq_ok_iff used).mp (modesOf_eq_ok_iff.mp found target)
          have same := immediateTarget?_eq_some_iff.mpr ⟨writes, marks.unique immediate⟩
          rw [decode_of_marked named found, same]

/-- A cell encodes an instruction or is refused. -/
theorem encodes_or_refused (raw : Word) :
    (∃ opcode modes, Encodes raw opcode modes) ∨ ∃ error, Refused raw error := by
  by_cases named : ∃ opcode, Names raw opcode
  · obtain ⟨opcode, named⟩ := named
    cases marked : modesOf raw opcode with
    | error error =>
        obtain ⟨param, failed, lower⟩ := modesOf_eq_error_iff.mp marked
        obtain ⟨used, unmarked, _⟩ := modeAt_eq_error_iff.mp failed
        refine .inr ⟨_, .mode named used (fun other below => ?_) unmarked⟩
        obtain ⟨mode, found⟩ := lower other below
        exact ⟨mode, (modeAt_eq_ok_iff (Nat.lt_trans below used)).mp found⟩
    | ok modes =>
        have marks (param : Fin maxParams) (used : param.val < opcode.arity) :=
          (modeAt_eq_ok_iff used).mp (modesOf_eq_ok_iff.mp marked param)
        cases writable : immediateTarget? opcode modes with
        | none => exact .inl ⟨opcode, modes, encodes_iff.mpr ⟨named, marked, writable⟩⟩
        | some target =>
            obtain ⟨writes, immediate⟩ := immediateTarget?_eq_some_iff.mp writable
            have written := marks target (Opcode.writeParam?_lt_arity writes)
            rw [immediate] at written
            exact .inr ⟨_, .target named (fun param used => ⟨_, marks param used⟩) writes written⟩
  · exact .inr ⟨_, .code (not_exists.mp named)⟩

theorem decode_eq_ok_iff : decode raw = .ok instruction ↔
    instruction.raw = raw ∧ Encodes raw instruction.opcode instruction.modes := by
  constructor
  · intro decoded
    rcases encodes_or_refused raw with ⟨opcode, modes, encodes⟩ | ⟨error, refused⟩
    · rw [encodes.decode_eq] at decoded
      cases decoded
      exact ⟨rfl, encodes⟩
    · rw [refused.decode_eq] at decoded
      cases decoded
  · rintro ⟨rfl, encodes⟩
    exact encodes.decode_eq

theorem decode_eq_error_iff : decode raw = .error error ↔ Refused raw error := by
  constructor
  · intro failed
    rcases encodes_or_refused raw with ⟨opcode, modes, encodes⟩ | ⟨error, refused⟩
    · rw [encodes.decode_eq] at failed
      cases failed
    · rw [refused.decode_eq] at failed
      cases failed
      exact refused
  · exact Refused.decode_eq

/-- Every operation has a cell for all modes it can have. -/
theorem Admits.exists_encodes (admits : Admits opcode modes) :
    ∃ raw, Encodes raw opcode modes := by
  obtain ⟨number, sum⟩ : ∃ number, number = opcode.code.toInt +
      (∑ param : Fin opcode.arity,
          (modes.get (param.castLE opcode.arity_le)).digit.toInt * 10 ^ (param.val + 2) +
        0 * 10 ^ (opcode.arity + 2)) := ⟨_, rfl⟩
  obtain ⟨_, _, front⟩ :=
    places_of_sum ⟨Int.le_of_lt opcode.code_bounds.1, opcode.code_bounds.2⟩
      (fun _ => Mode.digit_bounds _) sum
  have positive : (0 : Int) < 10 ^ (opcode.arity + 2) := Int.pow_pos (by decide)
  have few : (10 : Int) ^ (opcode.arity + 2) ≤ 10 ^ (maxParams + 2) := by
    exact_mod_cast Nat.pow_le_pow_right (by decide) (Nat.add_le_add_right opcode.arity_le 2)
  have least : 0 ≤ number := (Int.ediv_nonneg_iff_of_pos positive).mp (by rw [front])
  have most := Int.lt_ediv_add_one_mul_self number positive
  rw [front, Int.zero_add, Int.one_mul] at most
  have small : number < 10 ^ 5 := Int.lt_of_lt_of_le most few
  have fits : (Int64.ofInt number).toInt = number :=
    Int64.toInt_ofInt_of_le (by omega) (by omega)
  refine ⟨Int64.ofInt number, admits, 0, ?_⟩
  rw [fits]
  exact sum

/-- **The cells of instructions.** Decoding gives an operation and modes just when the cell is the
operation's code, a digit for the mode of each of its parameters from the hundreds up, and any
number in front of them, while the modes of other parameters are `position` and that of a parameter
to be written is not `immediate`. Every operation has such a cell for all modes it can have, and
every such cell is positive. Any other cell is refused: for its code if that is no operation's, else
for the lowest parameter whose digit is no mode's, else for the parameter that is written and
marked `immediate`. -/
theorem decode_accepts_encodings :
    (∀ raw instruction, decode raw = .ok instruction ↔
      instruction.raw = raw ∧ Encodes raw instruction.opcode instruction.modes) ∧
    (∀ opcode modes, Admits opcode modes →
      ∃ raw, decode raw = .ok { raw, opcode, modes }) ∧
    (∀ raw, raw ≤ 0 → ∃ error, decode raw = .error error) ∧
    ∀ raw error, decode raw = .error error ↔ Refused raw error := by
  refine ⟨fun _ _ => decode_eq_ok_iff, fun opcode modes admits => ?_, fun raw small => ?_,
    fun _ _ => decode_eq_error_iff⟩
  · obtain ⟨raw, encodes⟩ := admits.exists_encodes
    exact ⟨raw, encodes.decode_eq⟩
  · rcases encodes_or_refused raw with ⟨opcode, modes, encodes⟩ | ⟨error, refused⟩
    · have positive := (encodes_iff.mp encodes).1.pos
      have negative := Int64.le_iff_toInt_le.mp small
      exact absurd positive (Int.not_lt.mpr negative)
    · exact ⟨error, refused.decode_eq⟩

/-- A product with a mode of each kind has a cell, and the least word is none. -/
theorem mixed_product_is_encodable :
    (∃ raw, decode raw =
      .ok { raw, opcode := .multiply, modes := #v[.immediate, .relative, .position] }) ∧
      ∃ error, decode (-9223372036854775808) = .error error := by
  obtain ⟨_, encodable, nonpositive, _⟩ := decode_accepts_encodings
  exact ⟨encodable _ _ ⟨by decide, by decide⟩, nonpositive _ (by decide)⟩

/-- What stands in front of the digits in use need not be digits of modes. -/
example : (decode 987204).map (·.modes) = .ok #v[.relative, .position, .position] := by
  decide

end Instruction

end Intcode
