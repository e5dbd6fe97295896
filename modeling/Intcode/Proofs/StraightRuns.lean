import Intcode.Proofs.ExactAddresses
import Intcode.Proofs.InstructionCells
import Intcode.Proofs.Lifecycle
import Intcode.Proofs.ListingLines

/-! # Straight runs

A listing and a machine find their way through a program on their own: the sweep goes on behind the
cells of a line, and a machine behind the width of what it executed. They agree as long as the
machine takes no jump and puts nothing into a cell of the program (`Change.Straight`). Then the
machine stands at the line whose index is the number of instructions that were completed
(`Machine.Follows`), or has left the program, to which it does not come back.

This is so for one instruction (`Machine.Follows.executes`), hence for runs, calls and whole
sessions of a fresh machine (`Machine.straight_runs_follow_lines`). -/

namespace Intcode

/-- An address is that of a cell of the program. -/
def Program.Covers (program : Program) (address : Word) : Prop :=
  0 ≤ address.toInt ∧ address.toInt < program.size

instance (program : Program) (address : Word) : Decidable (program.Covers address) :=
  inferInstanceAs (Decidable (_ ∧ _))

/-- The effect is no jump and puts nothing into a cell of the program. -/
def Effect.Straight (program : Program) : Effect → Prop
  | .jump _ => False
  | .store address _ | .input address => ¬ program.Covers address
  | .output _ | .adjustBase _ | .advance | .halt => True

instance (program : Program) : DecidablePred (Effect.Straight program)
  | .jump _ => inferInstanceAs (Decidable False)
  | .store address _ | .input address => inferInstanceAs (Decidable (¬ program.Covers address))
  | .output _ | .adjustBase _ | .advance | .halt => inferInstanceAs (Decidable True)

/-- The operation neither starts the machine over nor patches a cell of the program. -/
def Operation.Spares (program : Program) : Operation → Prop
  | .reset => False
  | .poke address _ => ¬ program.Covers address
  | _ => True

instance (program : Program) : DecidablePred (Operation.Spares program)
  | .reset => inferInstanceAs (Decidable False)
  | .poke address _ => inferInstanceAs (Decidable (¬ program.Covers address))
  | .step | .run .. | .feed _ | .peek _ | .snapshot | .takeOutput | .drainOutput | .setSink
  | .setProvider _ | .clearCallbacks => inferInstanceAs (Decidable True)

/-- The name under which a call reports its errors. -/
def Operation.callName? : Operation → Option String
  | .step => some "machine::step"
  | .run suspend _ => some suspend.operation
  | _ => none

namespace Machine

open Listing (Opens lines)

variable {program : Program} {config : Config} {m n mid next final : Machine} {source : InputSource}
  {suspend : Suspend} {fuel count : Nat} {outcome : Except Error Step} {instruction : Instruction}
  {effect : Effect} {operation : Operation} {operations before since : List Operation}
  {past later row : List Change} {change : Change} {answer : Except Error Answer}
  {answers : List (Except Error Answer)} {error : Error} {address : Word}

/-- If the change is a completed instruction, then its effect is straight. -/
def Change.Straight (program : Program) (change : Change) : Prop :=
  change.completes = true → ∀ planned ∈ change.before.plan.toOption, planned.2.Straight program

instance (program : Program) : DecidablePred (Change.Straight program) := fun _ =>
  inferInstanceAs (Decidable (_ → _))

/-- The program is in memory as it was, and if the instruction pointer is inside of it, then it is
at the line with an index. -/
structure Follows (program : Program) (index : Nat) (m : Machine) : Prop where
  intact : ∀ place < program.size, m.memory.cells[place]? = program.cells[place]?
  opens : ∀ place < program.size, m.ip.toInt = place → Opens program index place

theorem follows_ofProgram (program : Program) (config : Config) :
    Follows program 0 (ofProgram program config) where
  intact place inside := by
    have within : place < program.cells.toArray.size := inside
    unfold ofProgram Memory.ofProgram Memory.image
    dsimp only
    rw [Array.getElem?_append_left within, List.getElem?_toArray]
  opens place _ same := by
    have begins : (0 : Int) = place := same
    obtain rfl : place = 0 := by omega
    exact Listing.opens_zero program

theorem Follows.congr (follows : Follows program count m) (memory : n.memory = m.memory)
    (ip : n.ip = m.ip) : Follows program count n where
  intact := by
    rw [memory]
    exact follows.intact
  opens := by
    rw [ip]
    exact follows.opens

theorem Follows.intact_put {index : Fin m.memory.cells.size} {value : Word}
    (follows : Follows program count m) (outside : ¬ program.Covers address) {name : String}
    (place : m.memory.locate name address = .ok index) :
    ∀ place < program.size, (m.memory.put index value).cells[place]? = program.cells[place]? := by
  intro other inside
  have exact := Memory.locate_eq_ok_iff.mp place
  have apart : index.val ≠ other := by
    unfold Program.Covers at outside
    omega
  rw [← follows.intact other inside]
  exact Array.getElem?_set_ne index.isLt apart

/-! ## One instruction -/

/-- What a machine that follows the lines plans inside the program is on its line. -/
theorem Follows.exists_line (follows : Follows program count m) {place : Nat}
    (inside : place < program.size) (same : m.ip.toInt = place) :
    ∃ line, (lines program)[count]? = some line ∧ line.address = place ∧
      Opens program (count + 1) (place + line.cells.length) ∧
      ∀ instruction effect, m.plan = .ok (instruction, effect) →
        place + instruction.width ≤ program.size → line.instruction = some instruction := by
  obtain ⟨line, here, placed, behind⟩ := (follows.opens place inside same).exists_line inside
  refine ⟨line, here, placed, behind, fun instruction effect planned room => ?_⟩
  have among : line ∈ lines program := List.mem_of_getElem? here
  obtain ⟨raw, _, found, decoded, _⟩ := exists_decode_of_plan planned
  have first : line.cells.head? = some raw := by
    rw [Listing.head?_of_mem_lines among, placed, ← follows.intact place inside,
      ← (Memory.read_eq_ok_iff.mp found).2, same, Int.toNat_natCast]
  have describes := (Listing.partition_lines program).described line among
  rw [Nat.zero_add] at describes
  exact describes.instruction_eq first decoded (placed.symm ▸ room)

/-- Behind an instruction a machine is at the next line, or outside. -/
theorem Follows.advance (follows : Follows program count m)
    (planned : m.plan = .ok (instruction, effect))
    (ip : next.ip = m.ip + Int64.ofNat instruction.width)
    (intact : ∀ place < program.size, next.memory.cells[place]? = program.cells[place]?) :
    Follows program (count + 1) next where
  intact
  opens place inside same := by
    obtain ⟨raw, _, found, _⟩ := exists_decode_of_plan planned
    have nonnegative : 0 ≤ m.ip.toInt := (Memory.read_eq_ok_iff.mp found).1.1
    rw [ip] at same
    rw [Word.toInt_add_ofNat instruction.width_le nonnegative (by omega)] at same
    obtain ⟨start, began⟩ := Int.eq_ofNat_of_zero_le nonnegative
    obtain rfl : start + instruction.width = place := by omega
    obtain ⟨line, here, _, behind, agrees⟩ := follows.exists_line (by omega) began
    have holds := agrees instruction effect planned (Nat.le_of_lt inside)
    have describes :=
      (Listing.partition_lines program).described line (List.mem_of_getElem? here)
    rwa [describes.length_eq holds] at behind

/-- **One instruction.** An instruction that is straight takes a machine from a line to the next if
it is completed, and leaves it there if it is not. -/
theorem Follows.executes (follows : Follows program count m)
    (executed : Executes source m outcome next)
    (straight : completed outcome = true →
      ∀ planned ∈ m.plan.toOption, planned.2.Straight program) :
    outcome = .ok .halted ∨
      Follows program (count + if completed outcome then 1 else 0) next := by
  cases executed with
  | fault | wait | underrun => exact .inr (follows.congr rfl rfl)
  | halt => exact .inl rfl
  | jump planned =>
      rw [planned] at straight
      exact (straight rfl _ rfl).elim
  | store planned place | read planned _ place =>
      rw [planned] at straight
      exact .inr (follows.advance planned rfl (follows.intact_put (straight rfl _ rfl) place))
  | emit planned | adjustBase planned | pass planned =>
      exact .inr (follows.advance planned rfl follows.intact)

/-! ## Rows of changes -/

/-- Before every attempt at an instruction the machine follows the lines. -/
def FollowedIn (program : Program) (count : Nat) (row : List Change) : Prop :=
  ∀ past change later source, row = past ++ change :: later → change.cause = .executing source →
    Follows program (count + completedIn past) change.before

theorem followedIn_of_quiet (quiet : ∀ change ∈ row, ∀ source, change.cause ≠ .executing source) :
    FollowedIn program count row := by
  rintro past change later source rfl attempt
  exact absurd attempt (quiet change (by simp) source)

theorem followedIn_single (follows : ∀ source, change.cause = .executing source →
    Follows program count change.before) : FollowedIn program count [change] := by
  intro past other later source split attempt
  cases past with
  | nil =>
      cases split
      exact follows source attempt
  | cons first past => exact absurd (List.cons.inj split).2 (by simp)

theorem FollowedIn.append (first : FollowedIn program count past)
    (second : FollowedIn program (count + completedIn past) later) :
    FollowedIn program count (past ++ later) := by
  intro front change back source split attempt
  rcases List.append_eq_append_iff.mp split with ⟨between, rfl, rest⟩ | ⟨between, whole, rest⟩
  · rw [completedIn_append, ← Nat.add_assoc]
    exact second between change back source rest attempt
  · cases between with
    | nil =>
        rw [List.append_nil] at whole
        subst whole
        have nothing := second [] change back source rest.symm attempt
        rwa [completedIn_nil, Nat.add_zero] at nothing
    | cons other between =>
        cases rest
        exact first front change between source whole attempt

/-! ## Calls -/

/-- A machine that is done for, or one that follows the lines. -/
def StoppedOrFollows (program : Program) (count : Nat) (m : Machine) : Prop :=
  m.state.isTerminal = true ∨ Follows program count m

/-- An instruction that is executed as a change. -/
theorem Follows.attempt (follows : Follows program count m) {after : Machine}
    (straight : (Change.mk m (.executing source) after).Straight program) :
    FollowedIn program count [⟨m, .executing source, after⟩] ∧
      ((m.execute source).1 = .ok .halted ∨
        Follows program (count + completedIn [⟨m, .executing source, after⟩])
          (m.execute source).2) := by
  constructor
  · exact followedIn_single fun _ _ => follows
  · have counted : completedIn [⟨m, .executing source, after⟩] =
        if completed (m.execute source).1 then 1 else 0 := by
      rw [completedIn, List.countP_singleton]
      rfl
    rw [counted]
    exact follows.executes (m.executes source) straight

/-- The mark behind an instruction changes nothing, but for one that has halted. -/
theorem stoppedOrFollows_mark {state : State} (before after : Machine)
    (went : outcome = .ok .halted ∨ Follows program (count + completedIn row) next)
    (stops : outcome = .ok .halted → state = .halted) :
    StoppedOrFollows program (count + completedIn (row ++ [⟨before, .aside, after⟩]))
      { next with state } := by
  rcases went with halted | follows
  · left
    rw [stops halted]
    rfl
  · right
    rw [completedIn_append, completedIn_aside, completedIn_nil, Nat.add_zero]
    exact follows.congr rfl rfl

theorem quiet_aside (before after : Machine) :
    ∀ change ∈ [Change.mk before .aside after], ∀ source, change.cause ≠ .executing source := by
  intro change among source
  rw [List.mem_singleton.mp among]
  exact Cause.noConfusion

/-- **Runs.** A machine that follows the lines at the start of a run follows them throughout. -/
theorem followedIn_runChanges (follows : Follows program count m)
    (straight : ∀ change ∈ runChanges suspend fuel m, change.Straight program) :
    FollowedIn program count (runChanges suspend fuel m) ∧
      ∀ result final, iterate (fun m => some (runTurn suspend m)) fuel m = some (result, final) →
        StoppedOrFollows program (count + completedIn (runChanges suspend fuel m)) final := by
  induction fuel generalizing m count with
  | zero =>
      exact ⟨followedIn_of_quiet (fun _ among => nomatch among),
        fun _ _ returned => nomatch returned⟩
  | succ fuel ih =>
      cases turned : runTurn suspend m with
      | again next =>
          obtain rfl := eq_of_runTurn_again turned
          simp only [runChanges, turned] at straight ⊢
          obtain ⟨here, others⟩ := List.forall_mem_cons.mp straight
          obtain ⟨first, went⟩ := follows.attempt here
          -- Behind a halt the machine would be on its line still, but there the run ends.
          have goesOn : (m.execute suspend.source).1 ≠ .ok .halted := by
            intro halted
            have ended := runTurn_done_iff.mpr (.halted (Prod.ext halted rfl) : Ends suspend m _ _)
            rw [turned] at ended
            cases ended
          obtain ⟨rest, ends⟩ := ih (went.resolve_left goesOn) others
          refine ⟨first.append rest, fun result final returned => ?_⟩
          simp only [iterate, turned] at returned
          have left := ends result final returned
          rwa [Nat.add_assoc, ← completedIn_append] at left
      | done answer =>
          obtain ⟨result, final⟩ := answer
          simp only [runChanges, turned] at straight ⊢
          obtain ⟨here, _⟩ := List.forall_mem_cons.mp straight
          obtain ⟨first, went⟩ := follows.attempt here
          refine ⟨first.append (followedIn_of_quiet (quiet_aside _ _)), ?_⟩
          intro other last returned
          simp only [iterate, turned] at returned
          cases returned
          cases runTurn_done_iff.mp turned with
          | output _ ended | needsInput ended | halted ended | failed ended =>
              rw [ended] at went
              exact stoppedOrFollows_mark _ _ went (by simp)

theorem quiet_of_aside (aside : operation.isCall = false) :
    ∀ change ∈ m.changes fuel operation, ∀ source, change.cause ≠ .executing source := by
  intro change among source
  cases operation with
  | step | run => cases aside
  | feed | takeOutput | drainOutput | setProvider | clearCallbacks =>
      rw [List.mem_singleton.mp among]
      exact Cause.noConfusion
  | peek | poke | snapshot | setSink | reset =>
      obtain ⟨went, _, rfl⟩ := List.mem_map.mp among
      exact Cause.noConfusion

theorem follows_of_aside (follows : Follows program count m) (aside : operation.isCall = false)
    (spared : operation.Spares program)
    (performed : m.perform fuel operation = some (answer, next)) :
    Follows program count next := by
  cases operation with
  | step | run => cases aside
  | reset => exact spared.elim
  | poke address value =>
      cases place : m.memory.locate "memory::write" address with
      | error error =>
          simp only [perform, poke, Memory.write, place] at performed
          cases performed
          exact follows
      | ok index =>
          simp only [perform, poke, Memory.write, place] at performed
          cases performed
          exact { intact := follows.intact_put spared place, opens := follows.opens }
  | feed | peek | snapshot | takeOutput | drainOutput | setSink | setProvider | clearCallbacks =>
      cases performed
      exact follows.congr rfl rfl

theorem followedIn_step (follows : Follows program count m) (live : m.state.isTerminal = false)
    (straight : ∀ change ∈ m.changes fuel .step, change.Straight program) :
    FollowedIn program count (m.changes fuel .step) ∧
      StoppedOrFollows program (count + completedIn (m.changes fuel .step)) m.step.2 := by
  have resumed : Follows program count m.resumed := follows.congr rfl rfl
  simp only [changes, live, Bool.false_eq_true, ↓reduceIte] at straight ⊢
  rw [List.forall_mem_cons, List.forall_mem_cons] at straight
  obtain ⟨_, here, _⟩ := straight
  obtain ⟨attempt, went⟩ := resumed.attempt here
  constructor
  · exact (followedIn_of_quiet (quiet_aside _ _)).append
      (attempt.append (followedIn_of_quiet (quiet_aside _ _)))
  · rw [completedIn_aside, step_of_live live rfl]
    exact stoppedOrFollows_mark _ _ went fun halted => congrArg stateAfterStep halted

theorem followedIn_run {input : List Word} (follows : Follows program count m)
    (live : m.state.isTerminal = false)
    (straight : ∀ change ∈ m.changes fuel (.run suspend input), change.Straight program) :
    FollowedIn program count (m.changes fuel (.run suspend input)) ∧
      ∀ result final, m.run suspend fuel input = some (result, final) →
        StoppedOrFollows program
          (count + completedIn (m.changes fuel (.run suspend input))) final := by
  have started : Follows program count (m.started input) := follows.congr rfl rfl
  simp only [changes, live, Bool.false_eq_true, ↓reduceIte] at straight ⊢
  rw [List.forall_mem_cons, List.forall_mem_cons] at straight
  obtain ⟨_, _, others⟩ := straight
  obtain ⟨followed, ends⟩ := followedIn_runChanges started others
  constructor
  · have accepted : FollowedIn program count [⟨m, .accepting input, m.feed input⟩] :=
      followedIn_single fun _ absurd => Cause.noConfusion absurd
    exact accepted.append ((followedIn_of_quiet (quiet_aside _ _)).append followed)
  · rw [completedIn_accepting, completedIn_aside, run_of_live live]
    exact ends

/-- **One operation.** A machine that has stopped or follows the lines does so behind an operation
that spares the program, and follows them before every instruction that is attempted in it. -/
theorem followedIn_changes (sound : StoppedOrFollows program count m)
    (spared : operation.Spares program)
    (straight : ∀ change ∈ m.changes fuel operation, change.Straight program) :
    FollowedIn program count (m.changes fuel operation) ∧
      ∀ answer next, m.perform fuel operation = some (answer, next) →
        StoppedOrFollows program (count + completedIn (m.changes fuel operation)) next := by
  cases call : operation.isCall with
  | false =>
      have kept : operation ≠ .reset := fun reset => by
        rw [reset] at spared
        exact spared
      refine ⟨followedIn_of_quiet (quiet_of_aside call), fun answer next performed => ?_⟩
      obtain ⟨state, _, nothing⟩ := keeps_of_aside call kept performed
      rw [nothing, Nat.add_zero]
      exact sound.imp (fun stopped => state.symm ▸ stopped)
        fun follows => follows_of_aside follows call spared performed
  | true =>
      cases terminal : m.state.isTerminal with
      | true =>
          rw [changes_of_terminal call terminal]
          refine ⟨followedIn_of_quiet (fun _ among => nomatch among), ?_⟩
          intro answer next performed
          rw [eq_of_call_of_terminal call terminal performed]
          exact .inl terminal
      | false =>
          have follows : Follows program count m := sound.resolve_left (by rw [terminal]; decide)
          cases operation with
          | step =>
              obtain ⟨followed, left⟩ := followedIn_step follows terminal straight
              refine ⟨followed, fun answer next performed => ?_⟩
              cases performed
              exact left
          | run suspend input =>
              obtain ⟨followed, ends⟩ := followedIn_run follows terminal straight
              refine ⟨followed, fun answer next performed => ?_⟩
              obtain ⟨⟨result, final⟩, returned, same⟩ := Option.map_eq_some_iff.mp performed
              cases same
              exact ends result next returned
          | _ => cases call

/-! ## Sessions -/

theorem followedIn_history (sound : StoppedOrFollows program count m)
    (spared : ∀ operation ∈ operations, operation.Spares program)
    (straight : ∀ change ∈ m.history fuel operations, change.Straight program) :
    FollowedIn program count (m.history fuel operations) := by
  induction operations generalizing m count with
  | nil => exact followedIn_of_quiet fun _ among => nomatch among
  | cons operation rest ih =>
      obtain ⟨here, elsewhere⟩ := List.forall_mem_cons.mp spared
      obtain ⟨first, later⟩ := List.forall_mem_append.mp straight
      obtain ⟨followed, left⟩ := followedIn_changes sound here first
      refine followed.append ?_
      cases performed : m.perform fuel operation with
      | none => exact followedIn_of_quiet fun _ among => nomatch among
      | some went =>
          rw [performed] at later
          exact ih (left went.1 went.2 performed) elsewhere later

theorem history_append (performed : m.performAll fuel before = some (answers, mid)) :
    m.history fuel (before ++ since) = m.history fuel before ++ mid.history fuel since := by
  induction before generalizing m answers with
  | nil =>
      cases performed
      rfl
  | cons operation rest ih =>
      obtain ⟨answer, next, others, first, behind, _⟩ := performAll_cons_eq_some_iff.mp performed
      simp only [List.cons_append, history, first, ih behind, List.append_assoc]

/-! ## Attempts that fail -/

theorem iterate_of_attempt {after : Machine} (among : change ∈ runChanges suspend fuel m)
    (attempt : change.cause = .executing source)
    (failed : change.before.execute source = (.error error, after)) :
    iterate (fun m => some (runTurn suspend m)) fuel m =
      some (.error (error.inOperation suspend.operation), { after with state := .failed }) := by
  induction fuel generalizing m with
  | zero => cases among
  | succ fuel ih =>
      rw [runChanges, List.mem_cons] at among
      rcases among with rfl | among
      · cases attempt
        have ended := runTurn_done_iff.mpr (.failed failed)
        simp only [iterate, ended]
      · cases turned : runTurn suspend m with
        | again next =>
            simp only [turned] at among
            simp only [iterate, turned]
            exact ih among
        | done answer =>
            simp only [turned] at among
            exact absurd attempt (quiet_aside _ _ change among source)

/-- **An attempt that fails ends its call.** -/
theorem perform_of_attempt {after : Machine} (among : change ∈ m.changes fuel operation)
    (attempt : change.cause = .executing source)
    (failed : change.before.execute source = (.error error, after)) :
    ∃ name, operation.callName? = some name ∧
      m.perform fuel operation =
        some (.error (error.inOperation name), { after with state := .failed }) := by
  cases call : operation.isCall with
  | false => exact absurd attempt (quiet_of_aside call change among source)
  | true =>
      cases terminal : m.state.isTerminal with
      | true =>
          rw [changes_of_terminal call terminal] at among
          cases among
      | false =>
          cases operation with
          | step =>
              simp only [changes, terminal, Bool.false_eq_true, ↓reduceIte, List.mem_cons,
                List.not_mem_nil, or_false] at among
              rcases among with rfl | rfl | rfl
              · cases attempt
              · cases attempt
                refine ⟨_, rfl, ?_⟩
                rw [perform, step_of_live terminal failed]
                rfl
              · cases attempt
          | run suspend input =>
              simp only [changes, terminal, Bool.false_eq_true, ↓reduceIte, List.mem_cons] at among
              rcases among with rfl | rfl | among
              · cases attempt
              · cases attempt
              · refine ⟨_, rfl, ?_⟩
                rw [perform, run_of_live terminal, iterate_of_attempt among attempt failed]
                rfl
          | _ => cases call

theorem plan_of_refused {raw : Word} (found : m.memory.read m.ip = .ok raw)
    (refused : Instruction.decode raw = .error error) : m.plan = .error error := by
  have fetched : m.fetch = .error error :=
    bind_eq_error.mpr (.inr ⟨raw, found, bind_eq_error.mpr (.inl refused)⟩)
  rw [plan, fetched]
  rfl

/-- At a line of data that does not decode there is nothing to execute. -/
theorem Follows.execute_of_refused {line : Listing.Line} {cell : Word}
    (follows : Follows program count m) (among : line ∈ lines program)
    (same : m.ip.toInt = line.address) (data : line.cells = [cell])
    (refused : Instruction.decode cell = .error error) (source : InputSource) :
    m.execute source = (.error (m.atIp error), m) := by
  have here : program.cells[line.address]? = some cell := by
    rw [← Listing.head?_of_mem_lines among, data, List.head?_cons]
  have inside : line.address < program.size := (List.getElem?_eq_some_iff.mp here).1
  have held : m.memory.cells[line.address]? = some cell :=
    (follows.intact line.address inside).trans here
  have within : line.address < m.memory.capacity := (Array.getElem?_eq_some_iff.mp held).1
  have found : m.memory.read m.ip = .ok cell := by
    refine Memory.read_eq_ok_iff.mpr ?_
    rw [same]
    exact ⟨⟨by omega, by omega⟩, held⟩
  rw [execute_eq_plan, plan_of_refused found refused]

/-- **Straight runs follow the listing.** In a session of a fresh machine that is not started over,
let no completed instruction jump or put anything into a cell of the program, and let no cell of the
program be patched. Whenever an instruction is attempted inside the program, the instruction pointer
is the address of the line whose index is the number of instructions that were completed before; and
what is executed there is the instruction on that line if the program has room for it. A call in
which a machine comes to a line of data that does not decode fails there, with the error of
decoding. -/
theorem straight_runs_follow_lines
    (spared : ∀ operation ∈ operations, operation.Spares program)
    (straight : ∀ change ∈ (ofProgram program config).history fuel operations,
      change.Straight program) :
    (∀ past change later source,
      (ofProgram program config).history fuel operations = past ++ change :: later →
      change.cause = .executing source → program.Covers change.before.ip →
        ∃ line, (lines program)[completedIn past]? = some line ∧
          change.before.ip.toInt = (line.address : Int) ∧
          ∀ instruction effect, change.before.plan = .ok (instruction, effect) →
            line.address + instruction.width ≤ program.size →
              line.instruction = some instruction) ∧
    ∀ before operation since answers m, operations = before ++ operation :: since →
      (ofProgram program config).performAll fuel before = some (answers, m) →
      ∀ change ∈ m.changes fuel operation, ∀ source, change.cause = .executing source →
      ∀ line ∈ lines program, change.before.ip.toInt = line.address →
      ∀ cell error, line.cells = [cell] → Instruction.decode cell = .error error →
        ∃ name, operation.callName? = some name ∧
          m.perform fuel operation =
            some (.error ((change.before.atIp error).inOperation name),
              { change.before with state := .failed }) := by
  have followed : FollowedIn program 0 ((ofProgram program config).history fuel operations) :=
    followedIn_history (.inr (follows_ofProgram program config)) spared straight
  constructor
  · intro past change later source row attempt inside
    have follows := followed past change later source row attempt
    rw [Nat.zero_add] at follows
    obtain ⟨place, same⟩ := Int.eq_ofNat_of_zero_le inside.1
    have within : place < program.size := by
      have below := inside.2
      omega
    obtain ⟨line, here, rfl, _, agrees⟩ := follows.exists_line within same
    exact ⟨line, here, same, agrees⟩
  · rintro before operation since answers m rfl performed change among source attempt line listed
      same cell error data refused
    obtain ⟨past, later, row⟩ := List.append_of_mem among
    obtain ⟨rest, whole⟩ : ∃ rest,
        (ofProgram program config).history fuel (before ++ operation :: since) =
          (ofProgram program config).history fuel before ++ past ++ change :: rest := by
      rw [history_append performed, history, row, List.append_assoc, List.cons_append,
        ← List.append_assoc]
      exact ⟨_, rfl⟩
    have follows := followed _ change _ source whole attempt
    have failed := follows.execute_of_refused listed same data refused source
    exact perform_of_attempt among attempt failed

/-- A program that reads a word, puts out the next and then meets no instruction. -/
def stranded : Program :=
  ⟨[3, 11, 109, 5, 1001, 11, 1, 12, 4, 12, 77]⟩

/-- A session that gets to the output by a step and a run, and patches a scratch cell between them.
-/
def strandedSession : List Operation :=
  [.feed [41], .step, .poke 12 5, .run .onOutput []]

/-- The output is the fourth instruction and on the fourth line, and the next run fails behind it.
-/
theorem stranded_follows_lines :
    (∀ operation ∈ strandedSession ++ [.run .never []], operation.Spares stranded) ∧
    (∀ change ∈ (ofProgram stranded { scratchCells := 2 }).history 4
      (strandedSession ++ [.run .never []]), change.Straight stranded) ∧
    (∃ (past : List Change) (change : Change) (later : List Change) (line : Listing.Line),
      (ofProgram stranded { scratchCells := 2 }).history 4
        (strandedSession ++ [.run .never []]) = past ++ change :: later ∧
      completedIn past = 3 ∧ change.before.ip = 8 ∧ (lines stranded)[3]? = some line ∧
      (8 : Int) = line.address ∧ line.instruction.map (·.opcode) = some .output) ∧
    ∃ (answers : List (Except Error Answer)) (m : Machine) (change : Change) (error : Error),
      (ofProgram stranded { scratchCells := 2 }).performAll 4 strandedSession =
        some (answers, m) ∧
      change.before.ip = 10 ∧ Instruction.decode 77 = .error error ∧
      m.perform 4 (.run .never []) =
        some (.error ((change.before.atIp error).inOperation "machine::run_to_halt"),
          { change.before with state := .failed }) := by
  have spared : ∀ operation ∈ strandedSession ++ [.run .never []],
      operation.Spares stranded := by decide
  have straight : ∀ change ∈ (ofProgram stranded { scratchCells := 2 }).history 4
      (strandedSession ++ [.run .never []]), change.Straight stranded := by decide +kernel
  obtain ⟨follows, fails⟩ := straight_runs_follow_lines spared straight
  refine ⟨spared, straight, ?_, ?_⟩
  · let row := (ofProgram stranded { scratchCells := 2 }).history 4
      (strandedSession ++ [.run .never []])
    have found : row[9]?.map (fun change =>
        (change.cause, change.before.ip, change.before.plan.toOption.map fun planned =>
          (planned.1.opcode, planned.1.width))) =
          some (.executing .policy, 8, some (.output, 2)) := by decide +kernel
    have completed : completedIn (row.take 9) = 3 := by decide +kernel
    obtain ⟨change, there, same⟩ := Option.map_eq_some_iff.mp found
    obtain ⟨within, here⟩ := List.getElem?_eq_some_iff.mp there
    have split : row = row.take 9 ++ change :: row.drop 10 := by
      rw [← here, ← List.drop_eq_getElem_cons within, List.take_append_drop]
    cases planned : change.before.plan with
    | error error => simp [planned, Except.toOption] at same
    | ok plan =>
        simp only [planned, Except.toOption, Option.map_some, Prod.mk.injEq,
          Option.some.injEq] at same
        obtain ⟨attempt, ip, opcode, width⟩ := same
        obtain ⟨line, listed, address, agrees⟩ :=
          follows (row.take 9) change (row.drop 10) .policy split attempt (by rw [ip]; decide)
        rw [completed] at listed
        rw [ip] at address
        have eighth : 8 = line.address := Int.ofNat.inj address
        have holds := agrees plan.1 plan.2 planned (by rw [width, ← eighth]; decide)
        refine ⟨row.take 9, change, row.drop 10, line, split, completed, ip, listed, address, ?_⟩
        rw [holds, Option.map_some, opcode]
  · have found : ((ofProgram stranded { scratchCells := 2 }).performAll 4 strandedSession).bind
        (fun went => (went.2.changes 4 (.run .never []))[2]?.map fun change =>
          (change.cause, change.before.ip)) = some (.executing .policy, 10) := by decide +kernel
    obtain ⟨⟨answers, m⟩, performed, third⟩ := Option.bind_eq_some_iff.mp found
    obtain ⟨change, there, same⟩ := Option.map_eq_some_iff.mp third
    obtain ⟨attempt, ip⟩ := Prod.mk.inj same
    have data : (⟨10, [77], none⟩ : Listing.Line) ∈ lines stranded := by decide +kernel
    obtain ⟨name, called, failed⟩ :=
      fails strandedSession (.run .never []) [] answers m rfl performed change
        (List.mem_of_getElem? there) .policy attempt _ data (by rw [ip]; rfl) 77 _ rfl rfl
    cases called
    exact ⟨answers, m, change, _, performed, ip, rfl, failed⟩

end Machine

end Intcode
