import Intcode.Proofs.Conservation
import Intcode.Proofs.PauseResume
import Intcode.Proofs.Reseeding
import Intcode.Proofs.Routing
import Intcode.Proofs.Starvation

/-! # Amplifiers that put out a single value

A strict machine that halts without a provider has found all it reads in its queue, so it does the
same elsewhere: in another state, with more behind its queue and with its output taken away
(`Machine.Elsewhere`). If it puts out a single value on its way, it goes on silently to that output
and silently from there to its halt (`Machine.Shoots`, `Machine.Subsides`).

When a signal passes once through a chain of such amplifiers, each shoots the signal for the next.
Around the loop they do the same: in a first pass each amplifier pauses behind its output, and in a
second it halts, without reading what it was sent again. In the ring they can do so one after the
other, which is a schedule, and the value that comes around to the first is never read. So all three
come to the same (`Chain.single_shots_agree`). -/

namespace Intcode

namespace Machine

variable {m n next mid last final : Machine} {value : Word} {outputs : List Word} {step : Step}
  {outcome : Except Error Step} {source : InputSource}

/-! ## The same machine elsewhere -/

/-- A machine is found elsewhere, in any state, with more behind its queue, and wherever its output
went. -/
def Elsewhere (m n : Machine) : Prop :=
  ∃ state later, n.unrouted = (m.amid state #[] later).unrouted

theorem Elsewhere.refl (m : Machine) : m.Elsewhere m :=
  ⟨m.state, [], by rw [m.amid_self]⟩

theorem Elsewhere.inState (elsewhere : m.Elsewhere n) (state : State) :
    m.Elsewhere { n with state } := by
  obtain ⟨_, later, same⟩ := elsewhere
  exact ⟨state, later, congrArg (fun other : Machine => { other with state }) same⟩

theorem Elsewhere.drained (elsewhere : m.Elsewhere n) : m.Elsewhere n.drainOutput.2 :=
  elsewhere

theorem Elsewhere.feed (elsewhere : m.Elsewhere n) (values : List Word) :
    m.Elsewhere (n.feed values) := by
  obtain ⟨state, later, same⟩ := elsewhere
  refine ⟨state, later ++ values, ?_⟩
  have fed : (n.feed values).unrouted = (m.amid state #[] later).unrouted.feed values :=
    (congrArg (·.feed values) same :)
  rw [fed]
  simp only [unrouted, Bridge.unrouted, amid, Machine.feed, Bridge.feed, List.append_assoc]

theorem Elsewhere.lastOutput_eq (elsewhere : m.Elsewhere n) : n.lastOutput = m.lastOutput := by
  obtain ⟨_, _, same⟩ := elsewhere
  exact (congrArg lastOutput same :)

theorem Elsewhere.started (elsewhere : m.Elsewhere n) (input : List Word) :
    m.Elsewhere (n.started input) :=
  (elsewhere.feed input).inState .running

/-- **Surroundings do not matter.** An instruction that finds what it needs in the queue comes to the
same elsewhere. -/
theorem Elsewhere.execute (elsewhere : m.Elsewhere n) (executed : m.execute .queue = (outcome, next))
    (fed : outcome ≠ .ok .needsInput) (source : InputSource) :
    ∃ after, n.execute source = (outcome, after) ∧ next.Elsewhere after := by
  obtain ⟨state, later, same⟩ := elsewhere
  have there := (execute_eq_iff.mp executed).amid fed state #[] later source
  obtain ⟨outcomes, machines⟩ := erasure_unrouted.execute same source
  rw [there.execute_eq] at outcomes machines
  exact ⟨(n.execute source).2, Prod.ext outcomes rfl, state, later, machines⟩

/-- An instruction that finds what it needs in the queue need not turn to anything else. -/
theorem execute_of_queue (executed : m.execute .queue = (outcome, next))
    (fed : outcome ≠ .ok .needsInput) (source : InputSource) :
    m.execute source = (outcome, next) := by
  have listed := execute_eq_iff.mp executed
  have there := listed.amid fed next.state #[] [] source
  rw [next.amid_self, listed.state_eq, m.amid_self] at there
  exact there.execute_eq

/-- A strict machine without a provider finds what it reads in the queue, or it fails. -/
theorem execute_queue_of_policy (alone : m.bridge.provider = none)
    (strict : m.config.underrun = .error) (executed : m.execute .policy = (.ok step, next)) :
    m.execute .queue = (.ok step, next) := by
  rcases execute_eq_policy_or_waits alone .queue with same | waits
  · rw [same, executed]
  · obtain ⟨_, empty, instruction, address, planned⟩ := execute_queue_waits_iff.mp waits
    have underrun := execute_policy_of_refused planned empty (Bridge.ask_of_alone alone) strict
    rw [underrun] at executed
    cases executed

/-! ## Newest outputs -/

theorem lastOutput_of_output (executed : m.execute source = (.ok (.output value), next)) :
    next.lastOutput = some value := by
  rcases (execute_eq_iff.mp executed).emits_or_silent with ⟨_, same, left⟩ | ⟨silent, _⟩
  · cases same
    exact (congrArg Bridge.lastOutput left).trans (m.bridge.lastOutput_emit value)
  · cases silent

theorem lastOutput_of_silent (executed : m.execute source = (outcome, next))
    (silent : handedOut outcome = []) : next.lastOutput = m.lastOutput := by
  rcases (execute_eq_iff.mp executed).emits_or_silent with ⟨_, rfl, _⟩ | ⟨_, kept⟩
  · cases silent
  · exact kept.lastOutput_eq

/-! ## Up to a halt, and up to an output -/

/-- With what is queued the machine goes on to its halt, without an output. -/
inductive Subsides : Machine → Prop
  | halted {m final : Machine} (executed : m.execute .queue = (.ok .halted, final)) : Subsides m
  | executed {m next : Machine} (first : m.execute .queue = (.ok .executed, next))
      (rest : Subsides next) : Subsides m

/-- With what is queued the machine goes on to its halt, with a single output. -/
inductive Shoots (value : Word) : Machine → Prop
  | output {m next : Machine} (first : m.execute .queue = (.ok (.output value), next))
      (rest : Subsides next) : Shoots value m
  | executed {m next : Machine} (first : m.execute .queue = (.ok .executed, next))
      (rest : Shoots value next) : Shoots value m

theorem Subsides.elsewhere (subsides : m.Subsides) (elsewhere : m.Elsewhere n) : n.Subsides := by
  induction subsides generalizing n with
  | halted executed =>
      obtain ⟨after, there, _⟩ := elsewhere.execute executed nofun .queue
      exact .halted there
  | executed first _ ih =>
      obtain ⟨after, there, onward⟩ := elsewhere.execute first nofun .queue
      exact .executed there (ih onward)

theorem Shoots.elsewhere (shoots : m.Shoots value) (elsewhere : m.Elsewhere n) :
    n.Shoots value := by
  induction shoots generalizing n with
  | output first rest =>
      obtain ⟨after, there, onward⟩ := elsewhere.execute first nofun .queue
      exact .output there (rest.elsewhere onward)
  | executed first _ ih =>
      obtain ⟨after, there, onward⟩ := elsewhere.execute first nofun .queue
      exact .executed there (ih onward)

theorem Subsides.finishes (subsides : m.Subsides) (suspend : Suspend) :
    ∃ last final, GoesOn suspend m [] last ∧
      last.execute suspend.source = (.ok .halted, final) ∧ final.lastOutput = m.lastOutput := by
  induction subsides with
  | @halted m final executed =>
      have here := execute_of_queue executed nofun suspend.source
      exact ⟨m, final, .here m, here, lastOutput_of_silent here rfl⟩
  | executed first _ ih =>
      have here := execute_of_queue first nofun suspend.source
      obtain ⟨last, final, goesOn, halts, newest⟩ := ih
      exact ⟨last, final, .executed here goesOn, halts,
        newest.trans (lastOutput_of_silent here rfl)⟩

theorem Shoots.reaches (shoots : m.Shoots value) (suspend : Suspend) :
    ∃ last after, GoesOn suspend m [] last ∧
      last.execute suspend.source = (.ok (.output value), after) ∧ after.Subsides := by
  induction shoots with
  | @output m next first rest =>
      exact ⟨m, next, .here m, execute_of_queue first nofun suspend.source, rest⟩
  | executed first _ ih =>
      obtain ⟨last, after, goesOn, shot, rest⟩ := ih
      exact ⟨last, after, .executed (execute_of_queue first nofun suspend.source) goesOn, shot,
        rest⟩

/-! ## Runs that shoot and runs that subside -/

theorem subsides_of_goesOn (goesOn : GoesOn .never m outputs mid) (silent : outputs = [])
    (halts : mid.execute .policy = (.ok .halted, final)) (alone : m.bridge.provider = none)
    (strict : m.config.underrun = .error) : m.Subsides ∧ final.lastOutput = m.lastOutput := by
  induction goesOn with
  | here m =>
      exact ⟨.halted (execute_queue_of_policy alone strict halts), lastOutput_of_silent halts rfl⟩
  | executed first _ ih =>
      have listed := execute_eq_iff.mp first
      obtain ⟨rest, newest⟩ := ih silent halts (listed.alone alone) (listed.config_eq ▸ strict)
      exact ⟨.executed (execute_queue_of_policy alone strict first) rest,
        newest.trans (lastOutput_of_silent first rfl)⟩
  | output => cases silent

/-- A strict machine without a provider that halts in a run with a single output shoots it. -/
theorem shoots_of_goesOn (goesOn : GoesOn .never m outputs mid) (single : outputs = [value])
    (halts : mid.execute .policy = (.ok .halted, final)) (alone : m.bridge.provider = none)
    (strict : m.config.underrun = .error) : m.Shoots value ∧ final.lastOutput = some value := by
  induction goesOn with
  | here => cases single
  | executed first _ ih =>
      have listed := execute_eq_iff.mp first
      obtain ⟨rest, newest⟩ := ih single halts (listed.alone alone) (listed.config_eq ▸ strict)
      exact ⟨.executed (execute_queue_of_policy alone strict first) rest, newest⟩
  | output _ first goesOn _ =>
      have listed := execute_eq_iff.mp first
      obtain ⟨rfl, silent⟩ := List.cons.inj single
      obtain ⟨rest, newest⟩ :=
        subsides_of_goesOn goesOn silent halts (listed.alone alone) (listed.config_eq ▸ strict)
      exact ⟨.output (execute_queue_of_policy alone strict first) rest,
        newest.trans (lastOutput_of_output first)⟩

/-- Run until its next output, a machine that shoots pauses behind its single output. -/
theorem Shoots.pauses {signal : Word} (shoots : (m.feed [signal]).Shoots value)
    (live : m.state.isTerminal = false) :
    ∃ fuel called, m.runUntilOutput fuel [signal] = some (.ok (some value), called) ∧
      called.state = .paused ∧ called.Subsides ∧ called.lastOutput = some value := by
  have started : (m.started [signal]).Shoots value :=
    shoots.elsewhere ((Elsewhere.refl _).inState .running)
  obtain ⟨last, after, goesOn, shot, rest⟩ := started.reaches .onOutput
  obtain ⟨fuel, returned⟩ := (run_returns_iff live).mpr ⟨[], last, goesOn, .output rfl shot⟩
  have newest : after.lastOutput = some value := lastOutput_of_output shot
  exact ⟨fuel, _, returned, rfl, rest.elsewhere ((Elsewhere.refl after).inState .paused), newest⟩

/-- Run until its next output, a machine that subsides halts, whatever it is sent. -/
theorem Subsides.halts (subsides : m.Subsides) (live : m.state.isTerminal = false) (signal : Word) :
    ∃ fuel called, m.runUntilOutput fuel [signal] = some (.ok m.lastOutput, called) ∧
      called.isHalted = true ∧ called.lastOutput = m.lastOutput := by
  have started := subsides.elsewhere ((Elsewhere.refl m).started [signal])
  obtain ⟨last, final, goesOn, halts, newest⟩ := started.finishes .onOutput
  obtain ⟨fuel, returned⟩ := (run_returns_iff live).mpr ⟨[], last, goesOn, .halted halts⟩
  have same : final.lastOutput = m.lastOutput := newest
  rw [same] at returned
  exact ⟨fuel, _, returned, rfl, same⟩

/-- A run to the end that does not fail ends with a halt, and reports the newest output. -/
theorem Ends.halts {newest : Option Word} (ends : Ends .never m (.ok newest) final) :
    ∃ next, m.execute .policy = (.ok .halted, next) ∧ next.lastOutput = newest := by
  generalize reported : (.ok newest : RunResult) = result at ends
  cases ends with
  | output occasion => cases occasion
  | needsInput waits => exact absurd waits (policy_never_waits _ _)
  | @halted next halts =>
      cases reported
      exact ⟨next, halts, rfl⟩
  | failed => cases reported

/-- Run to its halt, a fresh strict machine that puts out a single value shoots it. -/
theorem shoots_of_runToHalt {program : Program} {phase signal : Word} {fuel : Nat}
    {called : Machine}
    (returned : (Chain.amplifier program Config.strict phase).runToHalt fuel [signal] =
      some (.ok (some value), called))
    (single : called.drainOutput.1.length = 1) :
    ((Chain.amplifier program Config.strict phase).feed [signal]).Shoots value := by
  have descends := (descendsFrom_ofProgram program Config.strict).feed [phase]
  obtain ⟨outputs, mid, goesOn, ends⟩ := (run_returns_iff rfl).mp ⟨fuel, returned⟩
  have put : called.drainOutput.1 = outputs := by
    have unheard : called.bridge.sink = none := (descends.run returned).sink_eq
    have delivered : called.bridge.delivered = [] ++ outputs :=
      ends.delivered_eq.trans goesOn.delivered_eq
    simp only [Bridge.delivered, unheard, List.nil_append] at delivered
    exact delivered
  rw [put] at single
  obtain ⟨only, rfl⟩ := List.length_eq_one_iff.mp single
  obtain ⟨final, halts, newest⟩ := ends.halts
  obtain ⟨shoots, last⟩ := shoots_of_goesOn goesOn rfl halts rfl rfl
  rw [newest] at last
  cases last
  exact shoots.elsewhere ((Elsewhere.refl _).inState .standby)

end Machine

namespace Chain

variable {program : Program} {chain : Chain} {fuel index : Nat} {signal value : Word}
  {machines left : List Machine}

/-! ## Once through -/

/-- What each of some machines puts out while a signal is sent once through them, as far as it gets:
what is found in its outbox behind its run. -/
def serialOutputs (fuel : Nat) : Word → List Machine → List (List Word)
  | _, [] => []
  | signal, m :: rest =>
      match m.runToHalt fuel [signal] with
      | none => []
      | some (result, called) =>
          called.drainOutput.1 ::
            match result with
            | .ok (some value) => serialOutputs fuel value rest
            | _ => []

theorem serialOutputs_cons {m called : Machine}
    (returned : m.runToHalt fuel [signal] = some (.ok (some value), called)) (rest : List Machine) :
    serialOutputs fuel signal (m :: rest) =
      called.drainOutput.1 :: serialOutputs fuel value rest := by
  simp only [serialOutputs, returned]

/-- Each of some machines shoots the signal for the next, from the signal for the first to a
value. -/
inductive Relays : Word → List Machine → Word → Prop
  | nothing {signal : Word} : Relays signal [] signal
  | onward {signal value result : Word} {m : Machine} {rest : List Machine}
      (shoots : (m.feed [signal]).Shoots value) (relays : Relays value rest result) :
      Relays signal (m :: rest) result

theorem SerialPasses.relays {result : Except Error Word}
    (passes : SerialPasses fuel index signal machines result left) (came : result = .ok value)
    (fresh : ∀ m ∈ machines, ∃ phase, m = amplifier program Config.strict phase)
    (single : ∀ outputs ∈ serialOutputs fuel signal machines, outputs.length = 1) :
    Relays signal machines value := by
  induction passes with
  | nothing =>
      cases came
      exact .nothing
  | failed | silent => cases came
  | onward returned passes ih =>
      obtain ⟨⟨phase, rfl⟩, freshRest⟩ := List.forall_mem_cons.mp fresh
      rw [serialOutputs_cons returned] at single
      obtain ⟨here, others⟩ := List.forall_mem_cons.mp single
      exact .onward (Machine.shoots_of_runToHalt returned here) (ih came freshRest others)

/-! ## Around the loop -/

/-- Machines each of which is past its single output and has yet to halt. That of the last is a
value. -/
inductive Lingers : List Machine → Word → Prop
  | last {m : Machine} {value : Word} (live : m.state.isTerminal = false) (subsides : m.Subsides)
      (newest : m.lastOutput = some value) : Lingers [m] value
  | further {m : Machine} {rest : List Machine} {value : Word}
      (live : m.state.isTerminal = false) (subsides : m.Subsides) (lingers : Lingers rest value) :
      Lingers (m :: rest) value

theorem Lingers.ne_nil (lingers : Lingers machines value) : machines ≠ [] := by
  cases lingers <;> exact List.cons_ne_nil _ _

/-- In a first pass each machine pauses behind its output. -/
theorem Relays.firstPass (relays : Relays signal machines value) (nonempty : machines ≠ [])
    (live : ∀ m ∈ machines, m.state.isTerminal = false) (index : Nat) :
    ∃ fuel left, FeedbackPasses fuel index signal machines (.again value) left ∧
      Lingers left value := by
  induction relays generalizing index with
  | nothing => exact absurd rfl nonempty
  | @onward signal value result m rest shoots relays ih =>
      obtain ⟨here, liveRest⟩ := List.forall_mem_cons.mp live
      obtain ⟨first, called, returned, paused, subsides, newest⟩ := shoots.pauses here
      have wait : called.drainOutput.2.Subsides :=
        subsides.elsewhere (Machine.Elsewhere.refl called).drained
      -- It has paused and not halted, so the loop cannot settle in this pass.
      have goesOn : called.isHalted = false := by
        rw [Machine.isHalted, paused]
        rfl
      have liveCalled : called.drainOutput.2.state.isTerminal = false :=
        (congrArg State.isTerminal paused).trans rfl
      have further : ¬(called.isHalted && rest.isEmpty) = true := by
        rw [goesOn, Bool.false_and]
        exact Bool.false_ne_true
      cases relays with
      | nothing =>
          refine ⟨first, _, .onward returned further ?_, .last liveCalled wait newest⟩
          rw [goesOn]
          exact .nothing
      | onward shootsNext relays =>
          obtain ⟨second, left, passes, lingers⟩ := ih (List.cons_ne_nil _ _) liveRest (index + 1)
          refine ⟨first + second, _, .onward (Machine.run_add returned second) further ?_,
            .further liveCalled wait lingers⟩
          rw [goesOn, Nat.add_comm first second]
          exact passes.add first

/-- In a second pass each machine halts, without having read what it was sent. -/
theorem Lingers.secondPass (lingers : Lingers machines value) (index : Nat) (signal : Word) :
    ∃ fuel left, FeedbackPasses fuel index signal machines (.done (.ok value)) left := by
  induction lingers generalizing index with
  | last live subsides newest =>
      obtain ⟨fuel, called, returned, halted, kept⟩ := subsides.halts live signal
      exact ⟨fuel, _, .settled returned halted (kept.trans newest)⟩
  | @further m rest value live subsides lingers ih =>
      obtain ⟨first, called, returned, halted, _⟩ := subsides.halts live signal
      obtain ⟨second, left, passes⟩ := ih (index + 1)
      -- Only the halt of the last machine settles the loop.
      have further : ¬(called.isHalted && rest.isEmpty) = true := by
        rw [List.isEmpty_eq_false_iff.mpr lingers.ne_nil, Bool.and_false]
        exact Bool.false_ne_true
      refine ⟨first + second, called.drainOutput.2 :: left,
        .onward (Machine.run_add returned second) further ?_⟩
      rw [if_pos halted, Nat.add_comm first second]
      exact passes.add first

/-- **Around the loop.** The loop settles in its second pass. -/
theorem Relays.runFeedback (relays : Relays signal chain.machines value)
    (nonempty : chain.machines ≠ []) (live : ∀ m ∈ chain.machines, m.state.isTerminal = false) :
    ∃ fuel after, chain.runFeedback fuel signal = some (.ok value, after) := by
  obtain ⟨first, left, passes, lingers⟩ := relays.firstPass nonempty live 0
  obtain ⟨second, settled, passesAgain⟩ := lingers.secondPass 0 value
  have once := feedbackPass_iff.mpr (passes.add (second + 2))
  have twice := feedbackPass_iff.mpr (passesAgain.add (first + 2))
  have same : second + (first + 2) = first + (second + 2) := by omega
  rw [same] at twice
  refine ⟨first + (second + 2), ⟨settled⟩, ?_⟩
  rw [Chain.runFeedback, ← Nat.add_assoc]
  simp only [iterate, feedbackTurn, ← Nat.add_assoc] at once twice ⊢
  simp only [once, twice]

end Chain

namespace Ring

variable {ring : Ring} {index : Nat} {m : Machine} {signal value : Word} {machines : List Machine}

/-! ## In the ring -/

/-- A task whose machine finds what it needs in its channel makes the step of its instruction. -/
theorem step?_of_execute {step : Step} {next : Machine}
    (here : ring.tasks[index]? = some { machine := m })
    (executed : m.execute .queue = (.ok step, next)) (fed : step ≠ .needsInput) :
    ring.step? index =
      some (ring.after index (Task.conclude index next (.ok step)).1
        (Task.conclude index next (.ok step)).2) := by
  have came : (.ok step : Except Error Step) ≠ .ok .needsInput := fun same =>
    fed (Except.ok.inj same)
  refine step?_eq_some_iff.mpr ⟨_, _, _, here, Task.step_of_execute rfl executed came _ _, ?_, rfl⟩
  cases step with
  | needsInput => exact absurd rfl fed
  | _ => exact Task.Move.noConfusion

/-- A task whose machine subsides goes on to its end. -/
theorem follow_subsides (subsides : m.Subsides)
    (here : ring.tasks[index]? = some { machine := m }) :
    ∃ schedule final, follow step? ring schedule =
      some ⟨ring.tasks.set index { machine := final, outcome := some (.ok m.lastOutput) }⟩ := by
  induction subsides generalizing ring with
  | @halted m final executed =>
      have newest : final.lastOutput = m.lastOutput := Machine.lastOutput_of_silent executed rfl
      refine ⟨[index], final, ?_⟩
      rw [follow_cons (step?_of_execute here executed Step.noConfusion), after_of_silent rfl,
        ← newest]
      rfl
  | @executed m next first _ ih =>
      have newest : next.lastOutput = m.lastOutput := Machine.lastOutput_of_silent first rfl
      have there : (⟨ring.tasks.set index { machine := next }⟩ : Ring).tasks[index]? =
          some { machine := next } := List.getElem?_set_self (getElem?_inside here)
      obtain ⟨schedule, final, followed⟩ := ih there
      refine ⟨index :: schedule, final, ?_⟩
      rw [List.set_set, newest] at followed
      rw [follow_cons (step?_of_execute here first Step.noConfusion), after_of_silent rfl]
      exact followed

/-- A task whose machine shoots a value goes on to its end. The task that it feeds is sent the
value, and the others are left alone. -/
theorem follow_shoots (shoots : m.Shoots value)
    (here : ring.tasks[index]? = some { machine := m }) :
    ∃ schedule final, follow step? ring schedule = some final ∧
      final.outcomeAt index = some (.ok (some value)) ∧
      ∀ position, position ≠ index → final.tasks[position]? =
        ring.tasks[position]?.map (notice ring.tasks.length index position (.sent value)) := by
  induction shoots generalizing ring with
  | @output m next first rest =>
      have inside := getElem?_inside here
      have newest : next.lastOutput = some value := Machine.lastOutput_of_output first
      have moved := getElem?_after inside (.sent value) { machine := next }
      -- In a ring of one task, the task sends the value to itself.
      obtain ⟨machine, there, elsewhere⟩ : ∃ machine,
          (ring.after index (.sent value) { machine := next }).tasks[index]? =
            some { machine } ∧ next.Elsewhere machine := by
        rw [moved, if_pos rfl, Option.map_some]
        unfold notice
        split
        · exact ⟨_, rfl, (Machine.Elsewhere.refl next).feed [value]⟩
        · exact ⟨_, rfl, .refl next⟩
      obtain ⟨schedule, final, followed⟩ := follow_subsides (rest.elsewhere elsewhere) there
      have stepped := follow_cons (step?_of_execute here first Step.noConfusion) schedule
      refine ⟨index :: schedule, _, stepped.trans followed, ?_, ?_⟩
      · rw [outcomeAt, List.getElem?_set_self (getElem?_inside there), Option.bind_some,
          elsewhere.lastOutput_eq, newest]
      · intro position other
        rw [List.getElem?_set_ne other.symm, moved, if_neg other]
  | @executed m next first _ ih =>
      have inside := getElem?_inside here
      have there : (⟨ring.tasks.set index { machine := next }⟩ : Ring).tasks[index]? =
          some { machine := next } := List.getElem?_set_self inside
      obtain ⟨schedule, final, followed, ended, others⟩ := ih there
      refine ⟨index :: schedule, final, ?_, ended, ?_⟩
      · rw [follow_cons (step?_of_execute here first Step.noConfusion), after_of_silent rfl]
        exact followed
      · intro position other
        rw [others position other, List.length_set, List.getElem?_set_ne other.symm]

/-- The tasks of some machines, each working. -/
def working (machines : List Machine) : List Task :=
  machines.map fun machine => { machine }

theorem getElem?_working (machines : List Machine) (position : Nat) :
    (working machines)[position]? = machines[position]?.map fun machine => { machine } :=
  List.getElem?_map ..

/-- The tasks that are ahead when the first of them has shot its value for the next. -/
theorem drop_succ_of_shot {next : Ring} {rest : List Machine}
    (ahead : ring.tasks.drop index = working (m :: rest))
    (others : ∀ position, position ≠ index → next.tasks[position]? =
      ring.tasks[position]?.map (notice ring.tasks.length index position (.sent value))) :
    next.tasks.drop (index + 1) = working (rest.modify 0 (·.feed [value])) := by
  have size : ring.tasks.length - index = rest.length + 1 := by
    rw [← List.length_drop, ahead, working, List.length_map, List.length_cons]
  have inside : index < ring.tasks.length := by omega
  apply List.ext_getElem?
  intro position
  have there : ring.tasks[index + 1 + position]? =
      rest[position]?.map fun machine => { machine } := by
    have cell := congrArg (·[position + 1]?) ahead
    simp only [List.getElem?_drop, getElem?_working, List.getElem?_cons_succ] at cell
    rw [← cell]
    congr 1
    omega
  rw [List.getElem?_drop, others _ (by omega), there, getElem?_working, List.getElem?_modify]
  cases found : rest[position]? with
  | none => rfl
  | some machine =>
      have further : position < rest.length := (List.getElem?_eq_some_iff.mp found).1
      have fed : (index + 1) % ring.tasks.length = index + 1 := Nat.mod_eq_of_lt (by omega)
      simp only [Option.map_some, Option.map_eq_map, notice, fed]
      by_cases first : position = 0
      · subst first
        simp only [Nat.add_zero, ↓reduceIte]
        rfl
      · rw [if_neg (by omega), if_neg (Ne.symm first)]
        rfl

/-- **One after the other.** When the tasks from a position on relay a signal, and those before have
ended without a failure, some schedule lets all of them end so, the last with the value. -/
theorem follow_relays (relays : Chain.Relays signal machines value)
    (ahead : ring.tasks.drop index = working (machines.modify 0 (·.feed [signal])))
    (behind : ∀ who < index, ∃ newest, ring.outcomeAt who = some (.ok newest))
    (newest : machines = [] → ring.outcomeAt (ring.tasks.length - 1) = some (.ok (some signal))) :
    ∃ schedule final, follow step? ring schedule = some final ∧
      (∀ who < final.tasks.length, ∃ newest, final.outcomeAt who = some (.ok newest)) ∧
      final.outcomeAt (final.tasks.length - 1) = some (.ok (some value)) := by
  induction relays generalizing ring index with
  | nothing =>
      have all : ring.tasks.length ≤ index := List.drop_eq_nil_iff.mp ahead
      exact ⟨[], ring, rfl, fun who inside => behind who (by omega), newest rfl⟩
  | @onward signal value result m rest shoots relays ih =>
      have here : ring.tasks[index]? = some { machine := m.feed [signal] } := by
        have cell := congrArg (·[0]?) ahead
        rw [List.getElem?_drop] at cell
        exact cell
      obtain ⟨schedule, next, followed, ended, others⟩ := follow_shoots shoots here
      have size : next.tasks.length = ring.tasks.length := length_of_follow followed
      have count : ring.tasks.length - index = rest.length + 1 := by
        rw [← List.length_drop, ahead, working, List.length_map, List.length_modify,
          List.length_cons]
      have behindNext : ∀ who < index + 1, ∃ newest, next.outcomeAt who = some (.ok newest) := by
        intro who before
        by_cases same : who = index
        · exact ⟨_, same ▸ ended⟩
        · obtain ⟨newest, came⟩ := behind who (by omega)
          exact ⟨newest, outcomeAt_of_follow followed came⟩
      have newestNext : rest = [] →
          next.outcomeAt (next.tasks.length - 1) = some (.ok (some value)) := by
        rintro rfl
        have last : next.tasks.length - 1 = index := by
          rw [List.length_nil] at count
          omega
        rw [last, ended]
      obtain ⟨later, final, further, fine, value⟩ :=
        ih (drop_succ_of_shot ahead others) behindNext newestNext
      refine ⟨schedule ++ later, final, ?_, fine, value⟩
      rw [follow_append, followed, Option.bind_some, further]

end Ring

namespace Chain

variable {program : Program} {phases : List Word} {input value : Word} {chain after : Chain}
  {fuel : Nat}

/-- The amplifiers of a fresh chain. -/
theorem machines_of_ofPhases (built : ofPhases program phases = .ok chain) :
    phases ≠ [] ∧ chain.machines = phases.map (amplifier program Config.strict) := by
  cases phases with
  | nil => cases built
  | cons phase rest =>
      cases built
      exact ⟨List.cons_ne_nil _ _, rfl⟩

theorem working_ofPhases (nonempty : phases ≠ []) :
    (Ring.ofPhases program phases input).tasks =
      Ring.working ((phases.map (amplifier program Config.strict)).modify 0 (·.feed [input])) := by
  cases phases with
  | nil => exact absurd rfl nonempty
  | cons phase rest => rfl

/-- Amplifiers that relay a signal do so in their ring, under every schedule. -/
theorem Relays.succeeds
    (relays : Relays input (phases.map (amplifier program Config.strict)) value)
    (nonempty : phases ≠ []) :
    (Ring.ofPhases program phases input).Succeeds value ∧
      ∃ fuel, runRing fuel program phases input = some (.ok value) := by
  have tasks : (Ring.ofPhases program phases input).tasks.drop 0 =
      Ring.working ((phases.map (amplifier program Config.strict)).modify 0 (·.feed [input])) :=
    working_ofPhases nonempty
  obtain ⟨schedule, final, followed, fine, newest⟩ :=
    Ring.follow_relays relays tasks (fun _ before => absurd before (Nat.not_lt_zero _))
      fun nothing => absurd (List.map_eq_nil_iff.mp nothing) nonempty
  have finished : final.isFinished = true := Ring.isFinished_of_outcomes fun who inside => by
    obtain ⟨newest, came⟩ := fine who inside
    rw [came]
    rfl
  have result : final.result = .ok value := Ring.result_of_no_failure fine newest
  constructor
  · exact Ring.succeeds_iff_some_schedule.mpr ⟨schedule, final, followed, finished, result⟩
  · rw [← result]
    exact Ring.exists_runRing nonempty followed finished

/-- **Single shots agree.** Let a signal pass once through a fresh chain to a value, and let each
amplifier put out a single value in that. Then the loop of a fresh chain settles with this value as
well. So do the amplifiers side by side, under every schedule of their tasks, and in particular under
the one that is carried out. -/
theorem single_shots_agree (built : ofPhases program phases = .ok chain)
    (returned : chain.runSerial fuel input = some (.ok value, after))
    (single : ∀ outputs ∈ serialOutputs fuel input chain.machines, outputs.length = 1) :
    (∃ turns settled, chain.runFeedback turns input = some (.ok value, settled)) ∧
      (Ring.ofPhases program phases input).Succeeds value ∧
      ∃ turns, runRing turns program phases input = some (.ok value) := by
  obtain ⟨nonempty, machines⟩ := machines_of_ofPhases built
  have fresh : ∀ m ∈ chain.machines, ∃ phase, m = amplifier program Config.strict phase := by
    rw [machines]
    intro m among
    obtain ⟨phase, _, rfl⟩ := List.mem_map.mp among
    exact ⟨phase, rfl⟩
  have live : ∀ m ∈ chain.machines, m.state.isTerminal = false := by
    intro m among
    obtain ⟨phase, rfl⟩ := fresh m among
    rfl
  have filled : chain.machines ≠ [] := by
    rwa [machines, ne_eq, List.map_eq_nil_iff]
  unfold Chain.runSerial at returned
  split at returned
  · cases returned
  · rename_i passed
    cases returned
    have relays := (serialPass_iff.mp passed).relays rfl fresh single
    refine ⟨relays.runFeedback filled live, ?_⟩
    rw [machines] at relays
    exact relays.succeeds nonempty

/-- What is put out does not depend on the scratch cells either. -/
theorem SerialPasses.serialOutputs_widen {index : Nat} {signal : Word}
    {machines left : List Machine} {result : Except Error Word}
    (passes : SerialPasses fuel index signal machines result left) (came : result = .ok value)
    (scratch : UInt64) :
    serialOutputs fuel signal (machines.map (·.widen scratch)) =
      serialOutputs fuel signal machines := by
  induction passes with
  | nothing => rfl
  | failed | silent => cases came
  | onward returned _ ih =>
      have wide := Machine.run_widen returned (not_outOfBounds_ok _) scratch
      rw [List.map_cons, serialOutputs_cons wide, serialOutputs_cons returned, ih came]
      rfl

/-- A signal passes through two relays, each of which puts it out once. -/
theorem relays_pass_once : ∃ machines left, ofPhases Ring.relay [1, 2] = .ok ⟨machines⟩ ∧
    serialPass 4 0 5 machines = some (.ok 5, left) ∧
    serialOutputs 4 5 machines = [[5], [5]] := by
  have bare : ∃ left, serialPass 4 0 5 [Ring.bareRelay 1, Ring.bareRelay 2] =
      some (.ok 5, left) := ⟨_, rfl⟩
  obtain ⟨left, passed⟩ := bare
  have passes := serialPass_iff.mp passed
  have put : serialOutputs 4 5 [Ring.bareRelay 1, Ring.bareRelay 2] = [[5], [5]] := rfl
  have wide := serialPass_iff.mpr (passes.widen (not_outOfBounds_ok 5) defaultScratch)
  exact ⟨_, _, Ring.ofPhases_relay 1 2, wide, (passes.serialOutputs_widen rfl _).trans put⟩

/-- So their loop and their ring come to it. -/
theorem relays_agree_on_single_shots : ∃ chain after,
    ofPhases Ring.relay [1, 2] = .ok chain ∧ chain.runSerial 4 5 = some (.ok 5, after) ∧
      (∀ outputs ∈ serialOutputs 4 5 chain.machines, outputs.length = 1) ∧
      (∃ turns settled, chain.runFeedback turns 5 = some (.ok 5, settled)) ∧
      (Ring.ofPhases Ring.relay [1, 2] 5).Succeeds 5 ∧
      ∃ turns, runRing turns Ring.relay [1, 2] 5 = some (.ok 5) := by
  obtain ⟨machines, left, built, passed, put⟩ := relays_pass_once
  have returned : runSerial 4 5 ⟨machines⟩ = some (.ok 5, ⟨left⟩) := by
    simp only [runSerial, passed]
  have single : ∀ outputs ∈ serialOutputs 4 5 machines, outputs.length = 1 := by
    rw [put]
    decide
  exact ⟨⟨machines⟩, ⟨left⟩, built, returned, single, single_shots_agree built returned single⟩

end Chain

end Intcode
