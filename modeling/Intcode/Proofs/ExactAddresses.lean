import Intcode.Proofs.Execution

/-! # Addresses as integers

The address of a relative parameter is a sum that need not be a word. It is clamped to the nearest
word, which makes no difference where memory is no larger than the words that can address it: the
clamped address is outside just when the sum is, and on the same side (`Memory.read_clamp`). So a
parameter can be resolved by looking integers up, and an address that is outside is reported for
what it is (`Memory.resolve_is_exact`). -/

namespace Intcode

namespace Word

/-- The word nearest to an integer. -/
def clamp (number : Int) : Word :=
  Int64.ofInt (max least (min greatest number))

theorem toInt_clamp (number : Int) : (clamp number).toInt = max least (min greatest number) := by
  have lower : least = -2 ^ 63 := rfl
  have upper : greatest = 2 ^ 63 - 1 := rfl
  exact Int64.toInt_ofInt_of_le (by omega) (by omega)

theorem clamp_toInt (word : Word) : clamp word.toInt = word := by
  have lower : least ≤ word.toInt := word.le_toInt
  have upper : word.toInt ≤ greatest := word.toInt_le
  rw [clamp, Int.min_eq_right upper, Int.max_eq_right lower, Int64.ofInt_toInt]

/-- Going on by a few cells either is exact or leads below zero. -/
theorem toInt_add_ofNat {word : Word} {width : Nat} (few : width ≤ 4)
    (nonnegative : 0 ≤ word.toInt) (inside : 0 ≤ (word + Int64.ofNat width).toInt) :
    (word + Int64.ofNat width).toInt = word.toInt + width := by
  have upper : word.toInt < 2 ^ 63 := word.toInt_lt
  have exact : (Int64.ofNat width).toInt = width := Int64.toInt_ofNat_of_lt (by omega)
  -- A sum that is no word would have wrapped around to a negative one.
  rw [Int64.toInt_add, exact, Int.bmod_def] at inside ⊢
  omega

end Word

namespace Memory

variable {memory : Memory} {address : Int} {slot base operand value : Word} {mode : Mode}
  {param : Param} {error : Error}

def Inside (memory : Memory) (address : Int) : Prop :=
  0 ≤ address ∧ address < memory.capacity

/-- At an address, which may be any integer, there is a cell with a value. -/
def Holds (memory : Memory) (address : Int) (value : Word) : Prop :=
  memory.Inside address ∧ memory.cells[address.toNat]? = some value

instance : Decidable (memory.Inside address) :=
  inferInstanceAs (Decidable (_ ∧ _))

instance : Decidable (memory.Holds address value) :=
  inferInstanceAs (Decidable (_ ∧ _))

/-- The error of reading where there is no cell. It tells the word nearest to the address. -/
def missing (memory : Memory) (address : Int) : Error :=
  (if address < 0 then Error.negativeAddress (Word.clamp address)
    else Error.outOfBounds (Word.clamp address) memory.capacity).inOperation "memory::read"

/-- The error of an operation at a word that is no address of memory. -/
def refusal (memory : Memory) (operation : String) (address : Word) : Error :=
  (if address.toInt < 0 then Error.negativeAddress address
    else Error.outOfBounds address memory.capacity).inOperation operation

/-- The place a parameter's cell stands for, as an integer. -/
def exactAddress (slot operand base : Word) : Mode → Int
  | .position => operand.toInt
  | .immediate => slot.toInt
  | .relative => base.toInt + operand.toInt

/-- The first address that resolving a parameter needs and memory does not have: that of the
parameter's cell, or the one for which the cell stands. -/
inductive Lacks (memory : Memory) (slot : Word) (mode : Mode) (base : Word) : Int → Prop
  | slot (outside : ¬ memory.Inside slot.toInt) : Lacks memory slot mode base slot.toInt
  | target {operand : Word} (held : memory.Holds slot.toInt operand)
      (outside : ¬ memory.Inside (exactAddress slot operand base mode)) :
      Lacks memory slot mode base (exactAddress slot operand base mode)

theorem Inside.exists_holds (inside : memory.Inside address) :
    ∃ value, memory.Holds address value := by
  obtain ⟨nonnegative, below⟩ := id inside
  have within : address.toNat < memory.cells.size := by
    unfold capacity at below
    omega
  exact ⟨_, inside, Array.getElem?_eq_getElem within⟩

theorem Holds.unique {other : Word} (holds : memory.Holds address value)
    (again : memory.Holds address other) : value = other :=
  Option.some.inj (holds.2.symm.trans again.2)

theorem kind_missing (memory : Memory) (address : Int) :
    (memory.missing address).kind =
      if address < 0 then .negativeAddress else .addressOutOfBounds := by
  unfold missing
  split <;> rfl

theorem effectiveAddress_eq (slot operand base : Word) (mode : Mode) :
    effectiveAddress slot operand base mode = Word.clamp (exactAddress slot operand base mode) := by
  cases mode with
  | position => exact (Word.clamp_toInt operand).symm
  | immediate => exact (Word.clamp_toInt slot).symm
  | relative => rfl

/-! ## Words as addresses -/

theorem Inside.exists_index {word : Word} (inside : memory.Inside word.toInt) :
    ∃ index : Fin memory.cells.size, word.toInt = index.val := by
  obtain ⟨nonnegative, below⟩ := inside
  unfold capacity at below
  exact ⟨⟨word.toInt.toNat, by omega⟩, (Int.toNat_of_nonneg nonnegative).symm⟩

theorem inside_of_eq_index {word : Word} {index : Fin memory.cells.size}
    (same : word.toInt = index.val) : memory.Inside word.toInt := by
  have within := index.isLt
  unfold Inside capacity
  omega

theorem locate_of_eq_index {word : Word} {index : Fin memory.cells.size}
    (same : word.toInt = index.val) (operation : String) :
    memory.locate operation word = .ok index := by
  have nonnegative : ¬ word < 0 := by
    rw [Int64.lt_iff_toInt_lt, same]
    exact Int.not_lt.mpr (Int.natCast_nonneg _)
  have place : word.toNatClampNeg = index.val := by
    rw [← Int64.toNat_toInt, same, Int.toNat_natCast]
  rw [locate, if_neg nonnegative, dif_pos (place ▸ index.isLt)]
  exact congrArg Except.ok (Fin.ext place)

theorem locate_of_outside {word : Word} (outside : ¬ memory.Inside word.toInt)
    (operation : String) :
    memory.locate operation word = .error (memory.refusal operation word) := by
  have sign : word < 0 ↔ word.toInt < 0 := Int64.lt_iff_toInt_lt
  unfold locate refusal
  by_cases negative : word.toInt < 0
  · rw [if_pos (sign.mpr negative), if_pos negative]
  · have beyond : ¬ word.toNatClampNeg < memory.cells.size := by
      rw [← Int64.toNat_toInt]
      unfold Inside capacity at outside
      omega
    rw [if_neg (mt sign.mp negative), dif_neg beyond, if_neg negative]

/-- A word is the address of the cell with its number, and of no other. -/
theorem locate_eq_ok_iff {operation : String} {word : Word} {index : Fin memory.cells.size} :
    memory.locate operation word = .ok index ↔ word.toInt = index.val := by
  constructor
  · intro found
    by_cases inside : memory.Inside word.toInt
    · obtain ⟨other, same⟩ := inside.exists_index
      rw [locate_of_eq_index same] at found
      cases found
      exact same
    · rw [locate_of_outside inside] at found
      cases found
  · exact fun same => locate_of_eq_index same operation

theorem locate_eq_error_iff {operation : String} {word : Word} :
    memory.locate operation word = .error error ↔
      ¬ memory.Inside word.toInt ∧ error = memory.refusal operation word := by
  constructor
  · intro refused
    have outside : ¬ memory.Inside word.toInt := by
      intro inside
      obtain ⟨index, same⟩ := inside.exists_index
      rw [locate_of_eq_index same] at refused
      cases refused
    rw [locate_of_outside outside] at refused
    cases refused
    exact ⟨outside, rfl⟩
  · rintro ⟨outside, rfl⟩
    exact locate_of_outside outside operation

/-- What is read at a word is what memory holds at its address. -/
theorem read_eq_ok_iff {word : Word} :
    memory.read word = .ok value ↔ memory.Holds word.toInt value := by
  rw [read]
  cases place : memory.locate "memory::read" word with
  | error error =>
      obtain ⟨outside, _⟩ := locate_eq_error_iff.mp place
      exact iff_of_false nofun fun holds => outside holds.1
  | ok index =>
      have same := locate_eq_ok_iff.mp place
      have cell : memory.cells[word.toInt.toNat]? = some memory.cells[index] := by
        rw [same]
        exact Array.getElem?_eq_getElem index.isLt
      rw [Holds, cell, and_iff_right (inside_of_eq_index same), Option.some.injEq]
      exact ⟨Except.ok.inj, congrArg Except.ok⟩

theorem read_eq_error_iff {word : Word} : memory.read word = .error error ↔
    ¬ memory.Inside word.toInt ∧ error = memory.refusal "memory::read" word := by
  rw [← locate_eq_error_iff, read]
  cases memory.locate "memory::read" word with
  | ok index => exact iff_of_false nofun nofun
  | error other => exact ⟨fun same => by cases same; rfl, fun same => by cases same; rfl⟩

/-! ## Clamped addresses -/

/-- Clamping brings no address into memory and moves none within it. -/
theorem toInt_clamp_of_inside (small : memory.capacity ≤ Word.greatest)
    (inside : memory.Inside address) : (Word.clamp address).toInt = address := by
  have lower : Word.least = -2 ^ 63 := rfl
  have upper : Word.greatest = 2 ^ 63 - 1 := rfl
  obtain ⟨nonnegative, below⟩ := inside
  rw [Word.toInt_clamp]
  omega

theorem read_of_holds (small : memory.capacity ≤ Word.greatest)
    (holds : memory.Holds address value) :
    memory.read (Word.clamp address) = .ok value := by
  rw [read_eq_ok_iff, toInt_clamp_of_inside small holds.1]
  exact holds

theorem read_of_outside (small : memory.capacity ≤ Word.greatest)
    (outside : ¬ memory.Inside address) :
    memory.read (Word.clamp address) = .error (memory.missing address) := by
  have lower : Word.least = -2 ^ 63 := rfl
  have upper : Word.greatest = 2 ^ 63 - 1 := rfl
  have clamped := Word.toInt_clamp address
  have sign : (Word.clamp address).toInt < 0 ↔ address < 0 := by omega
  rw [read_eq_error_iff]
  constructor
  · unfold Inside at outside ⊢
    omega
  · simp only [missing, refusal, sign]

/-! ## Resolving -/

theorem resolve_of_holds (small : memory.capacity ≤ Word.greatest)
    (held : memory.Holds slot.toInt operand)
    (found : memory.Holds (exactAddress slot operand base mode) value) :
    memory.resolve slot mode base =
      .ok ⟨Word.clamp (exactAddress slot operand base mode), value⟩ := by
  refine bind_eq_ok.mpr ⟨operand, read_eq_ok_iff.mpr held, ?_⟩
  dsimp only
  rw [effectiveAddress_eq]
  exact bind_eq_ok.mpr ⟨value, read_of_holds small found, rfl⟩

theorem Lacks.resolve_eq (small : memory.capacity ≤ Word.greatest)
    (lacks : memory.Lacks slot mode base address) :
    memory.resolve slot mode base = .error (memory.missing address) := by
  cases lacks with
  | slot outside =>
      have missed := read_of_outside small outside
      rw [Word.clamp_toInt] at missed
      exact bind_eq_error.mpr (.inl missed)
  | @target operand held outside =>
      refine bind_eq_error.mpr (.inr ⟨operand, read_eq_ok_iff.mpr held, ?_⟩)
      dsimp only
      rw [effectiveAddress_eq]
      exact bind_eq_error.mpr (.inl (read_of_outside small outside))

theorem holds_or_lacks (memory : Memory) (slot : Word) (mode : Mode) (base : Word) :
    (∃ operand value, memory.Holds slot.toInt operand ∧
      memory.Holds (exactAddress slot operand base mode) value) ∨
    ∃ address, memory.Lacks slot mode base address := by
  by_cases inside : memory.Inside slot.toInt
  · obtain ⟨operand, held⟩ := inside.exists_holds
    by_cases target : memory.Inside (exactAddress slot operand base mode)
    · obtain ⟨value, found⟩ := target.exists_holds
      exact .inl ⟨operand, value, held, found⟩
    · exact .inr ⟨_, .target held target⟩
  · exact .inr ⟨_, .slot inside⟩

theorem resolve_eq_ok_iff (small : memory.capacity ≤ Word.greatest) :
    memory.resolve slot mode base = .ok param ↔
      ∃ operand, memory.Holds slot.toInt operand ∧
        memory.Holds (exactAddress slot operand base mode) param.value ∧
        param.address.toInt = exactAddress slot operand base mode := by
  constructor
  · intro resolved
    rcases memory.holds_or_lacks slot mode base with
      ⟨operand, value, held, found⟩ | ⟨address, lacks⟩
    · rw [resolve_of_holds small held found] at resolved
      cases resolved
      exact ⟨operand, held, found, toInt_clamp_of_inside small found.1⟩
    · rw [lacks.resolve_eq small] at resolved
      cases resolved
  · rintro ⟨operand, held, found, exact⟩
    rw [resolve_of_holds small held found, ← exact, Word.clamp_toInt]

theorem resolve_eq_error_iff (small : memory.capacity ≤ Word.greatest) :
    memory.resolve slot mode base = .error error ↔
      ∃ address, memory.Lacks slot mode base address ∧ error = memory.missing address := by
  constructor
  · intro failed
    rcases memory.holds_or_lacks slot mode base with
      ⟨operand, value, held, found⟩ | ⟨address, lacks⟩
    · rw [resolve_of_holds small held found] at failed
      cases failed
    · rw [lacks.resolve_eq small] at failed
      cases failed
      exact ⟨address, lacks, rfl⟩
  · rintro ⟨address, lacks, rfl⟩
    exact lacks.resolve_eq small

/-- An address that memory lacks is below zero or past the last cell, and the error says which. -/
theorem Lacks.kind_missing (lacks : memory.Lacks slot mode base address) :
    ((memory.missing address).kind = .negativeAddress ↔ address < 0) ∧
      ((memory.missing address).kind = .addressOutOfBounds ↔ memory.capacity ≤ address) := by
  have outside : ¬ memory.Inside address := by
    cases lacks with
    | slot outside | target _ outside => exact outside
  unfold Inside at outside
  rw [Memory.kind_missing]
  by_cases negative : address < 0
  · have within : ¬ (memory.capacity : Int) ≤ address := by omega
    simp only [negative, within, ↓reduceIte, reduceCtorEq, and_self]
  · have past : (memory.capacity : Int) ≤ address := by omega
    simp only [negative, past, ↓reduceIte, reduceCtorEq, and_self]

/-- **Resolving is exact.** As long as memory is no larger than words can address, a parameter is
resolved just when its cell is in memory and so is the address for which the cell stands: the
operand, the cell's own address, or the sum of relative base and operand as integers, be it a word
or not. It then has that address and the value there. Otherwise the error is that of the first of
the two addresses that is outside: a negative address when it is below zero, and an address out of
bounds when it is past the last cell. -/
theorem resolve_is_exact (memory : Memory) (small : memory.capacity ≤ Word.greatest)
    (slot base : Word) (mode : Mode) :
    ((∃ param, memory.resolve slot mode base = .ok param) ↔ memory.Inside slot.toInt ∧
      ∀ operand, memory.Holds slot.toInt operand →
        memory.Inside (exactAddress slot operand base mode)) ∧
    (∀ param, memory.resolve slot mode base = .ok param ↔
      ∃ operand, memory.Holds slot.toInt operand ∧
        memory.Holds (exactAddress slot operand base mode) param.value ∧
        param.address.toInt = exactAddress slot operand base mode) ∧
    (∀ error, memory.resolve slot mode base = .error error ↔
      ∃ address, memory.Lacks slot mode base address ∧ error = memory.missing address) ∧
    ∀ address, memory.Lacks slot mode base address →
      ((memory.missing address).kind = .negativeAddress ↔ address < 0) ∧
      ((memory.missing address).kind = .addressOutOfBounds ↔ memory.capacity ≤ address) := by
  refine ⟨⟨?_, ?_⟩, fun _ => resolve_eq_ok_iff small, fun _ => resolve_eq_error_iff small,
    fun _ => Lacks.kind_missing⟩
  · rintro ⟨param, resolved⟩
    obtain ⟨operand, held, found, _⟩ := (resolve_eq_ok_iff small).mp resolved
    refine ⟨held.1, fun other again => ?_⟩
    rw [again.unique held]
    exact found.1
  · rintro ⟨inside, targets⟩
    obtain ⟨operand, held⟩ := inside.exists_holds
    obtain ⟨value, found⟩ := (targets operand held).exists_holds
    exact ⟨_, resolve_of_holds small held found⟩

/-- A memory whose cells lead far out of it, on either side. -/
def farReaching : Memory :=
  ofProgram ⟨[9223372036854775807, -9223372036854775808, 7]⟩ 0

/-- The first sum is no word and past the last cell, the second is none and below zero, and the
third leads from one end of the words into memory. -/
theorem farReaching_is_exact :
    farReaching.capacity ≤ Word.greatest ∧
    farReaching.resolve 0 .relative 9223372036854775807 =
      .error (farReaching.missing 18446744073709551614) ∧
    farReaching.resolve 1 .relative (-1) = .error (farReaching.missing (-9223372036854775809)) ∧
    farReaching.resolve 0 .relative (-9223372036854775805) = .ok ⟨2, 7⟩ := by
  have small : farReaching.capacity ≤ Word.greatest := by decide
  have first : farReaching.Holds 0 9223372036854775807 := by decide
  have second : farReaching.Holds 1 (-9223372036854775808) := by decide
  refine ⟨small, ?_, ?_, ?_⟩
  · apply ((resolve_is_exact farReaching small 0 9223372036854775807 .relative).2.2.1 _).mpr
    exact ⟨_, .target first (by decide), rfl⟩
  · apply ((resolve_is_exact farReaching small 1 (-1) .relative).2.2.1 _).mpr
    exact ⟨_, .target second (by decide), rfl⟩
  · apply ((resolve_is_exact farReaching small 0 (-9223372036854775805) .relative).2.1 _).mpr
    exact ⟨_, first, by decide, by decide⟩

end Memory

end Intcode
