import Intcode.Proofs.Operations
import Intcode.Proofs.Scratch

/-! # Sessions with room

A session on a machine comes to the same on one with more scratch cells, answer by answer, until the
former answers that an address is out of bounds (`Machine.performAll_widen`). Not only runs and
steps agree: patching and looking into a cell do, resetting leaves the zeros behind zero, and a
snapshot leaves them out (`Memory.used_widen`). -/

namespace Intcode

namespace Memory

variable {memory : Memory} {address value : Word}

theorem reset_widen (memory : Memory) (extra : Nat) :
    (memory.widen extra).reset = memory.reset.widen extra := by
  have room : (memory.widen extra).capacity - memory.program.size =
      memory.capacity - memory.program.size + extra := by
    have fits : memory.program.size ≤ memory.capacity := memory.program_fits
    simp only [capacity, widen, Array.size_append, Array.size_replicate] at fits ⊢
    omega
  apply eq_of_fields
  · rfl
  · simp only [reset, widen, image] at room ⊢
    rw [room, Array.append_assoc, Array.replicate_append_replicate]

theorem write_widen (memory : Memory) (extra : Nat) (address value : Word) :
    OutOfBounds (memory.write address value) ∨
      (memory.widen extra).write address value =
        (memory.write address value).map (·.widen extra) := by
  unfold write
  rcases memory.locate_widen extra "memory::write" address with
    ⟨index, place, found, foundWide, equal⟩ | ⟨error, missing, same | outside⟩
  · apply Or.inr
    rw [found, foundWide]
    exact congrArg Except.ok (put_widen equal value)
  · exact .inr (by rw [missing, same]; rfl)
  · exact .inl ⟨error, by rw [missing]; rfl, outside⟩

/-! ## Used cells -/

theorem usedCount_le (cells : Array Word) (least count : Nat) :
    usedCount cells least count ≤ count := by
  induction count with
  | zero => exact Nat.le_refl 0
  | succ count ih =>
      unfold usedCount
      split
      · exact Nat.le_refl _
      · split
        · exact Nat.le_succ_of_le ih
        · exact Nat.le_refl _

/-- Only the cells that are counted matter. -/
theorem usedCount_append (cells others : Array Word) (least : Nat) {count : Nat}
    (inside : count ≤ cells.size) :
    usedCount (cells ++ others) least count = usedCount cells least count := by
  induction count with
  | zero => rfl
  | succ count ih =>
      simp only [usedCount, Array.getElem?_append_left inside, ih (Nat.le_of_succ_le inside)]

/-- Zeros behind the cells are not counted. -/
theorem usedCount_zeros (cells : Array Word) {least : Nat} (fits : least ≤ cells.size)
    (zeros extra : Nat) (among : extra ≤ zeros) :
    usedCount (cells ++ Array.replicate zeros 0) least (cells.size + extra) =
      usedCount cells least cells.size := by
  induction extra with
  | zero => exact usedCount_append _ _ _ (Nat.le_refl _)
  | succ extra ih =>
      have beyond : ¬cells.size + extra + 1 ≤ least := by omega
      have zero : (cells ++ Array.replicate zeros (0 : Word))[cells.size + extra]? = some 0 := by
        rw [Array.getElem?_append_right (Nat.le_add_right _ _), Nat.add_sub_cancel_left,
          Array.getElem?_replicate, if_pos (by omega)]
      rw [← Nat.add_assoc]
      simp only [usedCount, beyond, zero, ↓reduceIte]
      exact ih (Nat.le_of_succ_le among)

theorem used_widen (memory : Memory) (extra : Nat) : (memory.widen extra).used = memory.used := by
  have room : (memory.widen extra).capacity = memory.cells.size + extra := by
    simp only [capacity, widen, Array.size_append, Array.size_replicate]
  have count : usedCount (memory.widen extra).cells memory.program.size
      (memory.cells.size + extra) = usedCount memory.cells memory.program.size memory.cells.size :=
    usedCount_zeros _ memory.program_fits extra extra (Nat.le_refl _)
  have few := usedCount_le memory.cells memory.program.size memory.cells.size
  unfold used
  rw [room]
  change ((memory.widen extra).cells.toList).take (usedCount (memory.widen extra).cells
    memory.program.size (memory.cells.size + extra)) = _
  rw [count]
  simp only [widen, Array.toList_append]
  exact List.take_append_of_le_length few

end Memory

namespace Machine

variable {m next final : Machine} {fuel : Nat} {operation : Operation}

theorem outOfBounds_map {α β : Type} {result : Except Error α} (f : α → β)
    (outside : OutOfBounds result) : OutOfBounds (result.map f) := by
  obtain ⟨error, rfl, kind⟩ := outside
  exact ⟨error, rfl, kind⟩

theorem outOfBounds_mapError {α : Type} {result : Except Error α} (operation : String)
    (outside : OutOfBounds result) :
    OutOfBounds (result.mapError (·.inOperation operation)) := by
  obtain ⟨error, rfl, kind⟩ := outside
  exact ⟨_, rfl, kind⟩

theorem reset_widen (m : Machine) (scratch : UInt64) :
    (m.widen scratch).reset = m.reset.widen scratch := by
  unfold reset widen
  simp only [Memory.reset_widen]

theorem snapshot_widen (m : Machine) (scratch : UInt64) :
    (m.widen scratch).snapshot = m.snapshot := by
  unfold snapshot widen
  simp only [Memory.used_widen]
  rfl

theorem peek_widen (m : Machine) (scratch : UInt64) (address : Word) :
    OutOfBounds (m.peek address) ∨ (m.widen scratch).peek address = m.peek address := by
  unfold peek
  rcases m.memory.read_widen (scratch.toNat - m.config.scratchCells.toNat) address with
    same | outside
  · exact .inr (congrArg (Except.mapError _) same)
  · exact .inl (outOfBounds_mapError _ outside)

theorem poke_widen (m : Machine) (scratch : UInt64) (address value : Word) :
    OutOfBounds (m.poke address value) ∨
      (m.widen scratch).poke address value = (m.poke address value).map (·.widen scratch) := by
  unfold poke
  rcases m.memory.write_widen (scratch.toNat - m.config.scratchCells.toNat) address value with
    outside | same
  · exact .inl (outOfBounds_map _ (outOfBounds_mapError _ outside))
  · apply Or.inr
    have wide : (m.widen scratch).memory =
        m.memory.widen (scratch.toNat - m.config.scratchCells.toNat) := rfl
    rw [wide, same]
    cases m.memory.write address value <;> rfl

theorem step_widen (m : Machine) (scratch : UInt64) :
    OutOfBounds m.step.1 ∨ (m.widen scratch).step = (m.step.1, m.step.2.widen scratch) := by
  have same : (m.widen scratch).state = m.state := rfl
  unfold step
  rw [same]
  split
  · exact .inr rfl
  · exact .inr rfl
  · have running : { m.widen scratch with state := .running } =
        ({ m with state := .running } : Machine).widen scratch := rfl
    rw [running]
    cases executed : ({ m with state := .running } : Machine).execute .provider with
    | mk outcome next =>
        by_cases inside : OutOfBounds outcome
        · obtain ⟨error, rfl, outside⟩ := inside
          exact .inl ⟨error.inOperation "machine::step", rfl, outside⟩
        · apply Or.inr
          rw [execute_widen executed inside scratch]
          cases outcome with
          | error error => rfl
          | ok step => cases step <;> rfl

/-- **An operation with room.** An operation comes to the same with more scratch cells, and also
does not return where it does not, unless it ends out of bounds. -/
theorem perform_widen (m : Machine) (fuel : Nat) (operation : Operation) (scratch : UInt64) :
    (∃ answer next, m.perform fuel operation = some (answer, next) ∧ OutOfBounds answer) ∨
      (m.widen scratch).perform fuel operation =
        (m.perform fuel operation).map fun (answer, next) => (answer, next.widen scratch) := by
  cases operation with
  | step =>
      rcases m.step_widen scratch with outside | same
      · exact .inl ⟨_, _, rfl, outOfBounds_map _ outside⟩
      · simp only [perform, same]
        exact .inr rfl
  | run suspend input =>
      rcases m.run_widen_or suspend fuel input scratch with ⟨result, final, found, outside⟩ | same
      · refine .inl ⟨result.map .value, final, ?_, outOfBounds_map _ outside⟩
        simp only [perform, found, Option.map_some]
      · simp only [perform, same]
        cases m.run suspend fuel input <;> exact .inr rfl
  | peek address =>
      rcases m.peek_widen scratch address with outside | same
      · exact .inl ⟨_, _, rfl, outOfBounds_map _ outside⟩
      · simp only [perform, same]
        exact .inr rfl
  | poke address value =>
      rcases m.poke_widen scratch address value with ⟨error, failed, outside⟩ | same
      · refine .inl ⟨.error error, m, ?_, error, rfl, outside⟩
        simp only [perform, failed]
      · simp only [perform, same]
        cases m.poke address value <;> exact .inr rfl
  | snapshot =>
      simp only [perform, snapshot_widen]
      exact .inr rfl
  | reset =>
      simp only [perform, reset_widen]
      exact .inr rfl
  | _ => exact .inr rfl

theorem perform_config_eq {answer : Except Error Answer}
    (performed : m.perform fuel operation = some (answer, next)) : next.config = m.config :=
  perform_preserves (P := fun other => other.config = m.config)
    (fun executed kept => executed.config_eq.trans kept) (fun _ kept => kept) (fun _ kept => kept)
    (fun _ _ kept => kept) (fun kept => kept) performed rfl

theorem performAll_config_eq {operations : List Operation} {answers : List (Except Error Answer)}
    (performed : m.performAll fuel operations = some (answers, final)) :
    final.config = m.config :=
  performAll_preserves (P := fun other => other.config = m.config)
    (fun first kept => (perform_config_eq first).trans kept) performed rfl

/-- **A session with room.** A session in which nothing is out of bounds comes to the same with more
scratch cells. -/
theorem performAll_widen {operations : List Operation} {answers : List (Except Error Answer)}
    (performed : m.performAll fuel operations = some (answers, final))
    (inside : ∀ answer ∈ answers, ¬OutOfBounds answer) (scratch : UInt64) :
    (m.widen scratch).performAll fuel operations = some (answers, final.widen scratch) := by
  induction operations generalizing m answers with
  | nil =>
      cases performed
      rfl
  | cons operation rest ih =>
      obtain ⟨answer, next, others, first, later, rfl⟩ := performAll_cons_eq_some_iff.mp performed
      obtain ⟨here, elsewhere⟩ := List.forall_mem_cons.mp inside
      refine performAll_cons_eq_some_iff.mpr
        ⟨answer, next.widen scratch, others, ?_, ih later elsewhere, rfl⟩
      rcases m.perform_widen fuel operation scratch with ⟨other, after, found, outside⟩ | wide
      · rw [first] at found
        cases found
        exact absurd outside here
      · rw [wide, first, Option.map_some]

/-- **Scratch cells do not matter.** Let a session on a fresh machine answer nothing that is out of
bounds. On a fresh machine over the same program, of the same underrun policy and with at least as
many scratch cells it gives the same answers, and leaves a machine that differs in nothing but the
zeros behind its cells. Whatever is done next comes to the same as well, also if it does not
return, unless it is out of bounds on the smaller machine. -/
theorem sessions_agree {program : Program} {underrun : Underrun} {few many : UInt64}
    (more : few ≤ many) {operations : List Operation} {answers : List (Except Error Answer)}
    {narrow : Machine}
    (performed : (ofProgram program { scratchCells := few, underrun }).performAll fuel operations =
      some (answers, narrow))
    (inside : ∀ answer ∈ answers, ¬OutOfBounds answer) :
    ∃ wide,
      (ofProgram program { scratchCells := many, underrun }).performAll fuel operations =
        some (answers, wide) ∧
      wide.state = narrow.state ∧ wide.ip = narrow.ip ∧
      wide.relativeBase = narrow.relativeBase ∧ wide.steps = narrow.steps ∧
      wide.bridge = narrow.bridge ∧ wide.snapshot = narrow.snapshot ∧
      wide.memory.program = narrow.memory.program ∧
      wide.memory.cells.toList =
        narrow.memory.cells.toList ++ List.replicate (many.toNat - few.toNat) 0 ∧
      ∀ turns operation,
        (∃ answer next, narrow.perform turns operation = some (answer, next) ∧
          OutOfBounds answer) ∨
        (wide.perform turns operation).map Prod.fst =
          (narrow.perform turns operation).map Prod.fst := by
  have wider : (ofProgram program { scratchCells := few, underrun }).widen many =
      ofProgram program { scratchCells := many, underrun } := widen_ofProgram program more
  have scratch : narrow.config.scratchCells = few :=
    congrArg Config.scratchCells (performAll_config_eq performed)
  refine ⟨narrow.widen many, ?_, rfl, rfl, rfl, rfl, rfl, narrow.snapshot_widen many, rfl, ?_, ?_⟩
  · rw [← wider]
    exact performAll_widen performed inside many
  · simp only [widen, Memory.widen, Array.toList_append, Array.toList_replicate, scratch]
  · intro turns operation
    rcases narrow.perform_widen turns operation many with outside | same
    · exact .inl outside
    · apply Or.inr
      rw [same, Option.map_map]
      rfl

/-- A program that reads a word into the first scratch cell and puts it out. -/
def echo : Program :=
  ⟨[3, 5, 4, 5, 99]⟩

/-- A session that stays within one scratch cell, patches it, and ends with a step that waits. -/
def echoSession : List Operation :=
  [.run .onOutput [7], .poke 5 8, .peek 5, .reset, .step]

/-- What the session answers. -/
def echoAnswers : List (Except Error Answer) :=
  [.ok (.value (some 7)), .ok .nothing, .ok (.cell 8), .ok .nothing, .ok (.step .needsInput)]

/-- The session with one scratch cell and with four. -/
theorem echo_sessions_agree :
    (1 : UInt64) ≤ 4 ∧ (∀ answer ∈ echoAnswers, ¬OutOfBounds answer) ∧ ∃ narrow wide,
      (ofProgram echo { scratchCells := 1 }).performAll 3 echoSession =
        some (echoAnswers, narrow) ∧
      (ofProgram echo { scratchCells := 4 }).performAll 3 echoSession =
        some (echoAnswers, wide) ∧
      wide.snapshot = narrow.snapshot ∧
      wide.memory.cells.toList = narrow.memory.cells.toList ++ [0, 0, 0] := by
  have more : (1 : UInt64) ≤ 4 := by decide
  have answered : ((ofProgram echo { scratchCells := 1 }).performAll 3 echoSession).map Prod.fst =
      some echoAnswers := by decide +kernel
  obtain ⟨⟨_, narrow⟩, performed, rfl⟩ := Option.map_eq_some_iff.mp answered
  have inside : ∀ answer ∈ echoAnswers, ¬OutOfBounds answer := by
    simp only [echoAnswers, List.forall_mem_cons, not_outOfBounds_ok, not_false_eq_true,
      List.not_mem_nil, false_implies, implies_true, and_self]
  obtain ⟨wide, same, _, _, _, _, _, snapshot, _, cells, _⟩ := sessions_agree more performed inside
  exact ⟨more, inside, narrow, wide, performed, same, snapshot, cells⟩

end Machine

end Intcode
