import Intcode.Iteration
import Intcode.Listing

/-! # The lines of a listing

A listing cuts the cells of a program into lines. Each holds an instruction with its parameters, or
one cell of data, where nothing decodes or where not all parameters of what decodes are there
(`Listing.Line.Describes`). What stands at the front of some cells decides the first line
(`Listing.sweep_of_describes`), so the lines of a listing are the only ones that cut its cells in
this way (`Listing.partition_iff`).

The sweep takes cells off the front of a list. One that finds its cells by their addresses makes the
same lines, ends, and never looks for a cell that is not there (`Listing.iterate_sweepTurn`). -/

namespace Intcode.Listing

variable {program : Program} {start limit : Nat} {cell : Word}
  {params rest cells before remaining : List Word} {line : Line} {found row : List Line}
  {instruction : Instruction}

/-- What a line may say of cells that end at an address: that they are an instruction with all its
parameters, or that one of them is data. -/
inductive Line.Describes (limit : Nat) : Line → Prop
  | instruction {address : Nat} {cell : Word} {params : List Word} {instruction : Instruction}
      (decoded : Instruction.decode cell = .ok instruction)
      (complete : (cell :: params).length = instruction.width) :
      Describes limit ⟨address, cell :: params, some instruction⟩
  | undecodable {address : Nat} {cell : Word} {error : Error}
      (refused : Instruction.decode cell = .error error) : Describes limit ⟨address, [cell], none⟩
  | truncated {address : Nat} {cell : Word} {instruction : Instruction}
      (decoded : Instruction.decode cell = .ok instruction)
      (past : limit < address + instruction.width) : Describes limit ⟨address, [cell], none⟩

/-- Lines that cut the cells from an address on: one behind the other and without a gap, each saying
what is the case. -/
structure Partition (start : Nat) (cells : List Word) (row : List Line) : Prop where
  cells_eq : row.flatMap (·.cells) = cells
  address_eq : ∀ earlier line later, row = earlier ++ line :: later →
    line.address = start + (earlier.flatMap (·.cells)).length
  described : ∀ line ∈ row, line.Describes (start + cells.length)

/-! ## The first line -/

theorem complete?_of_room (decoded : Instruction.decode cell = .ok instruction)
    (room : instruction.opcode.arity ≤ rest.length) : complete? cell rest = some instruction := by
  rw [complete?, decoded]
  exact if_pos (List.length_take_of_le room)

theorem complete?_of_refused {error : Error} (refused : Instruction.decode cell = .error error) :
    complete? cell rest = none := by
  rw [complete?, refused]

theorem complete?_of_short (decoded : Instruction.decode cell = .ok instruction)
    (short : rest.length < instruction.opcode.arity) : complete? cell rest = none := by
  rw [complete?, decoded]
  refine if_neg ?_
  rw [List.length_take]
  omega

theorem sweep_of_complete (decoded : Instruction.decode cell = .ok instruction)
    (complete : (cell :: params).length = instruction.width) :
    sweep start (cell :: params ++ rest) =
      ⟨start, cell :: params, some instruction⟩ :: sweep (start + instruction.width) rest := by
  have arity : instruction.opcode.arity = params.length := by
    rw [Instruction.width, List.length_cons] at complete
    omega
  have room : instruction.opcode.arity ≤ (params ++ rest).length := by
    rw [List.length_append, arity]
    exact Nat.le_add_right _ _
  rw [List.cons_append, sweep, complete?_of_room decoded room]
  simp only [Option.map_some, Option.getD_some, arity, List.take_left, List.drop_left,
    Instruction.width, Nat.add_assoc]

theorem sweep_of_incomplete (incomplete : complete? cell rest = none) :
    sweep start (cell :: rest) = ⟨start, [cell], none⟩ :: sweep (start + 1) rest := by
  rw [sweep, incomplete]
  rfl

/-- **The first line.** A line that says what is the case of the cells at the front is the first. -/
theorem sweep_of_describes (describes : line.Describes (start + (line.cells ++ rest).length))
    (placed : line.address = start) :
    sweep start (line.cells ++ rest) = line :: sweep (start + line.cells.length) rest := by
  cases describes with
  | instruction decoded complete =>
      cases placed
      rw [complete]
      exact sweep_of_complete decoded complete
  | undecodable refused =>
      cases placed
      exact sweep_of_incomplete (complete?_of_refused refused)
  | @truncated address cell instruction decoded past =>
      cases placed
      have short : rest.length < instruction.opcode.arity := by
        rw [Instruction.width, List.length_append, List.length_singleton] at past
        dsimp only at past
        omega
      exact sweep_of_incomplete (complete?_of_short decoded short)

/-- There is such a line wherever there is a cell. -/
theorem exists_describes (start : Nat) (cell : Word) (rest : List Word) :
    ∃ (line : Line) (remaining : List Word), cell :: rest = line.cells ++ remaining ∧
      line.address = start ∧ line.Describes (start + (cell :: rest).length) ∧
      line.cells ≠ [] := by
  cases decoded : Instruction.decode cell with
  | error error =>
      exact ⟨⟨start, [cell], none⟩, rest, rfl, rfl, .undecodable decoded, List.cons_ne_nil _ _⟩
  | ok instruction =>
      by_cases room : instruction.opcode.arity ≤ rest.length
      · refine ⟨⟨start, cell :: rest.take instruction.opcode.arity, some instruction⟩,
          rest.drop instruction.opcode.arity, ?_, rfl, .instruction decoded ?_,
          List.cons_ne_nil _ _⟩
        · rw [List.cons_append, List.take_append_drop]
        · rw [List.length_cons, List.length_take_of_le room, Instruction.width, Nat.add_comm]
      · refine ⟨⟨start, [cell], none⟩, rest, rfl, rfl, .truncated decoded ?_,
          List.cons_ne_nil _ _⟩
        rw [List.length_cons, Instruction.width]
        omega

/-! ## All lines -/

theorem partition_nil_iff : Partition start cells [] ↔ cells = [] := by
  constructor
  · intro partition
    exact partition.cells_eq.symm
  · rintro rfl
    refine ⟨rfl, fun earlier line later absurd => ?_, fun line among => nomatch among⟩
    exact nomatch (List.append_eq_nil_iff.mp absurd.symm).2

theorem partition_cons_iff : Partition start cells (line :: row) ↔
    line.address = start ∧ line.Describes (start + cells.length) ∧
      ∃ remaining, cells = line.cells ++ remaining ∧
        Partition (start + line.cells.length) remaining row := by
  constructor
  · rintro ⟨rfl, addresses, described⟩
    obtain ⟨here, others⟩ := List.forall_mem_cons.mp described
    refine ⟨addresses [] line row rfl, here, row.flatMap (·.cells), rfl, rfl, ?_, ?_⟩
    · rintro earlier other later rfl
      rw [addresses (line :: earlier) other later rfl, List.flatMap_cons, List.length_append,
        Nat.add_assoc]
    · intro other among
      have ends := others other among
      rwa [List.flatMap_cons, List.length_append, ← Nat.add_assoc] at ends
  · rintro ⟨placed, here, remaining, rfl, rest⟩
    refine ⟨?_, ?_, ?_⟩
    · rw [List.flatMap_cons, rest.cells_eq]
    · intro earlier other later split
      cases earlier with
      | nil =>
          cases split
          exact placed
      | cons first earlier =>
          cases split
          rw [rest.address_eq earlier other later rfl, List.flatMap_cons, List.length_append,
            Nat.add_assoc]
    · refine List.forall_mem_cons.mpr ⟨here, fun other among => ?_⟩
      rw [List.length_append, ← Nat.add_assoc]
      exact rest.described other among

theorem eq_sweep_of_partition (partition : Partition start cells row) :
    row = sweep start cells := by
  induction row generalizing start cells with
  | nil =>
      rw [partition_nil_iff.mp partition, sweep]
  | cons line row ih =>
      obtain ⟨placed, describes, remaining, rfl, rest⟩ := partition_cons_iff.mp partition
      rw [sweep_of_describes describes placed, ← ih rest]

theorem partition_sweep (start : Nat) (cells : List Word) :
    Partition start cells (sweep start cells) := by
  -- The cells that remain behind a line are fewer, though not by one.
  induction size : cells.length using Nat.strongRecOn generalizing start cells with
  | ind size ih =>
      cases cells with
      | nil =>
          rw [sweep]
          exact partition_nil_iff.mpr rfl
      | cons cell rest =>
          obtain ⟨line, remaining, split, placed, describes, nonempty⟩ :=
            exists_describes start cell rest
          have positive := List.length_pos_iff.mpr nonempty
          rw [split] at size describes ⊢
          rw [List.length_append] at size
          rw [sweep_of_describes describes placed]
          exact partition_cons_iff.mpr
            ⟨placed, describes, remaining, rfl, ih remaining.length (by omega) _ _ rfl⟩

theorem partition_lines (program : Program) : Partition 0 program.cells (lines program) :=
  partition_sweep 0 program.cells

/-- **The lines of a listing are the only ones.** -/
theorem partition_iff : Partition start cells row ↔ row = sweep start cells := by
  constructor
  · exact eq_sweep_of_partition
  · rintro rfl
    exact partition_sweep start cells

/-! ## Single lines -/

theorem Line.Describes.length_eq (describes : line.Describes limit)
    (holds : line.instruction = some instruction) : line.cells.length = instruction.width := by
  cases describes with
  | instruction decoded complete =>
      cases holds
      exact complete
  | undecodable | truncated => cases holds

/-- What the first cell of a line decodes to is on the line if there is room for it. -/
theorem Line.Describes.instruction_eq (describes : line.Describes limit)
    (first : line.cells.head? = some cell) (decoded : Instruction.decode cell = .ok instruction)
    (room : line.address + instruction.width ≤ limit) : line.instruction = some instruction := by
  cases describes with
  | instruction found complete =>
      cases first
      rw [decoded] at found
      cases found
      rfl
  | undecodable refused =>
      cases first
      rw [decoded] at refused
      cases refused
  | truncated found past =>
      cases first
      rw [decoded] at found
      cases found
      exact absurd room (Nat.not_le.mpr past)

theorem cells_ne_nil_of_mem_lines (among : line ∈ lines program) : line.cells ≠ [] := by
  cases (partition_lines program).described line among <;> exact List.cons_ne_nil _ _

/-- The first cell of a line is the one at its address. -/
theorem head?_of_mem_lines (among : line ∈ lines program) :
    line.cells.head? = program.cells[line.address]? := by
  obtain ⟨earlier, later, row⟩ := List.append_of_mem among
  have address := (partition_lines program).address_eq earlier line later row
  have cells := (partition_lines program).cells_eq
  have length : (earlier.flatMap (·.cells)).length = line.address := by
    rw [address, Nat.zero_add]
  rw [row, List.flatMap_append, List.flatMap_cons] at cells
  rw [← cells, List.getElem?_append_right (Nat.le_of_eq length), length, Nat.sub_self]
  cases here : line.cells with
  | nil => exact absurd here (cells_ne_nil_of_mem_lines among)
  | cons cell params => rfl

/-- The lines from an index on are those of the cells from an address on. -/
def Opens (program : Program) (index address : Nat) : Prop :=
  sweep address (program.cells.drop address) = (lines program).drop index

theorem opens_zero (program : Program) : Opens program 0 0 :=
  rfl

/-- Where lines begin at a cell there is a first, and the others begin behind its cells. -/
theorem Opens.exists_line {index address : Nat} (opens : Opens program index address)
    (inside : address < program.size) :
    ∃ line, (lines program)[index]? = some line ∧ line.address = address ∧
      Opens program (index + 1) (address + line.cells.length) := by
  have split : program.cells.drop address =
      program.cells[address] :: program.cells.drop (address + 1) :=
    List.drop_eq_getElem_cons inside
  obtain ⟨line, remaining, cut, placed, describes, _⟩ :=
    exists_describes address program.cells[address] (program.cells.drop (address + 1))
  unfold Opens at opens
  rw [split] at opens
  rw [cut] at opens describes
  rw [sweep_of_describes describes placed] at opens
  refine ⟨line, ?_, placed, ?_⟩
  · rw [← List.head?_drop, ← opens, List.head?_cons]
  · have behind : program.cells.drop (address + line.cells.length) = remaining := by
      rw [← List.drop_drop, split, cut, List.drop_left]
    rw [Opens, behind, ← List.drop_drop, ← opens, List.drop_one, List.tail_cons]

/-! ## Sweeping by address -/

/-- The cells between two addresses, if they are all there. -/
def slice? (cells : List Word) (first behind : Nat) : Option (List Word) :=
  if first ≤ behind ∧ behind ≤ cells.length then some ((cells.take behind).drop first) else none

/-- A turn of a sweep that finds its cells by their addresses. It has no result when it looks for a
cell that is not there. -/
def sweepTurn (cells : List Word) : Nat × List Line → Option (Turn (Nat × List Line) (List Line))
  | (address, found) =>
      if address < cells.length then do
        let cell ← cells[address]?
        let instruction := (Instruction.decode cell).toOption.filter fun instruction =>
          address + instruction.width ≤ cells.length
        let behind := address + (instruction.map (·.width)).getD 1
        let extent ← slice? cells address behind
        return .again (behind, found ++ [⟨address, extent, instruction⟩])
      else return .done found

theorem slice?_append (before cells rest : List Word) :
    slice? (before ++ (cells ++ rest)) before.length (before.length + cells.length) =
      some cells := by
  have inside : before.length + cells.length ≤ (before ++ (cells ++ rest)).length := by
    simp only [List.length_append]
    omega
  rw [slice?, if_pos ⟨Nat.le_add_right _ _, inside⟩, List.take_length_add_append, List.drop_left,
    List.take_left]

theorem sweepTurn_of_extent {address : Nat} {extent : List Word} {chosen : Option Instruction}
    (here : cells[address]? = some cell)
    (decoded : (Instruction.decode cell).toOption.filter
      (fun instruction => address + instruction.width ≤ cells.length) = chosen)
    (width : (chosen.map (·.width)).getD 1 = extent.length)
    (there : slice? cells address (address + extent.length) = some extent) :
    sweepTurn cells (address, found) =
      some (.again (address + extent.length, found ++ [⟨address, extent, chosen⟩])) := by
  have inside : address < cells.length := (List.getElem?_eq_some_iff.mp here).1
  simp only [sweepTurn, inside, ↓reduceIte, here, Option.bind_eq_bind, Option.bind_some, decoded,
    width, there]
  rfl

/-- A turn finds the line that says what is the case at its address. -/
theorem sweepTurn_of_describes
    (describes : line.Describes (before.length + (line.cells ++ rest).length))
    (placed : line.address = before.length) :
    sweepTurn (before ++ (line.cells ++ rest)) (before.length, found) =
      some (.again (before.length + line.cells.length, found ++ [line])) := by
  have there := slice?_append before line.cells rest
  have front (cell : Word) (others : List Word) :
      (before ++ cell :: others)[before.length]? = some cell := by
    rw [List.getElem?_append_right (Nat.le_refl _), Nat.sub_self, List.getElem?_cons_zero]
  rw [← List.length_append] at describes
  cases describes with
  | @instruction address cell params instruction decoded complete =>
      cases placed
      refine sweepTurn_of_extent (front cell (params ++ rest)) ?_ complete.symm there
      have fits : before.length + instruction.width ≤
          (before ++ (cell :: params ++ rest)).length := by
        simp only [List.length_append, complete]
        omega
      rw [decoded]
      exact Option.filter_eq_some_iff.mpr ⟨rfl, decide_eq_true fits⟩
  | @undecodable address cell error refused =>
      cases placed
      exact sweepTurn_of_extent (front cell rest) (by rw [refused]; rfl) rfl there
  | @truncated address cell instruction decoded past =>
      cases placed
      refine sweepTurn_of_extent (front cell rest) ?_ rfl there
      rw [decoded]
      refine Option.filter_eq_none_iff.mpr fun other same => ?_
      cases same
      exact fun fits => Nat.not_le.mpr past (of_decide_eq_true fits)

theorem sweepTurn_at_end (cells : List Word) (found : List Line) :
    sweepTurn cells (cells.length, found) = some (.done found) :=
  if_neg (Nat.lt_irrefl _)

/-- A sweep by address makes the lines of the cells that are left. -/
theorem iterate_sweepTurn {turns : Nat} (enough : remaining.length < turns) :
    iterate (sweepTurn (before ++ remaining)) turns (before.length, found) =
      some (found ++ sweep before.length remaining) := by
  induction turns generalizing before remaining found with
  | zero => exact absurd enough (Nat.not_lt_zero _)
  | succ turns ih =>
      cases remaining with
      | nil =>
          simp only [iterate, sweep, List.append_nil, sweepTurn_at_end]
      | cons cell rest =>
          obtain ⟨line, remaining, split, placed, describes, nonempty⟩ :=
            exists_describes before.length cell rest
          have positive := List.length_pos_iff.mpr nonempty
          rw [split] at enough describes ⊢
          rw [List.length_append] at enough
          simp only [iterate, sweepTurn_of_describes describes placed]
          rw [sweep_of_describes describes placed, ← List.append_assoc, ← List.length_append,
            ih (by omega), List.append_assoc, List.singleton_append]

/-- **Listings are faithful.** A sweep that finds the cells of a program by their addresses ends
within one turn more than there are cells, never looks for a cell that is not there, and makes the
lines of the listing. These, and no other lines, have all cells of the program in their order, each
at the address that is the number of cells before it; and each holds either an instruction that its
first cell decodes to, with exactly as many cells as that takes, or a single cell that does not
decode or whose instruction would reach past the last cell. -/
theorem lines_partition_cells (program : Program) :
    iterate (sweepTurn program.cells) (program.size + 1) (0, []) = some (lines program) ∧
    ∀ row, Partition 0 program.cells row ↔ row = lines program := by
  constructor
  · have swept : iterate (sweepTurn ([] ++ program.cells)) (program.size + 1) (0, []) =
        some ([] ++ sweep ([] : List Word).length program.cells) :=
      iterate_sweepTurn (Nat.lt_succ_self _)
    exact swept
  · exact fun row => partition_iff

end Intcode.Listing
