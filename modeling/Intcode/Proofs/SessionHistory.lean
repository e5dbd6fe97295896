import Intcode.Proofs.Operations

/-! # Histories of sessions

An operation changes a machine by and by: values are accepted into the queue, instructions are
executed one after the other, values are taken from the outbox, providers come and go, and whatever
else is done is aside from the values that go in and out. The history of a session is the row of
these changes (`Machine.history`). Each happens to the machine that the one before it left, and the
last leaves the machine that the session leaves (`Machine.unfolds_history`). Where a run does not
return, the history ends with the turns that were allowed.

What every change balances, a history balances (`Machine.Unfolds.flow`), and what every single
change keeps holds before every change of a session (`Machine.history_preserves`). -/

namespace Intcode

namespace Bridge

/-- What was put out is left alone. Another tape may have been begun. -/
structure SameOutput (bridge next : Bridge) : Prop where
  outbox_eq : next.outbox = bridge.outbox
  tapes_eq : next.tapes.flatten = bridge.tapes.flatten
  lastOutput_eq : next.lastOutput = bridge.lastOutput

theorem SameOutput.refl (bridge : Bridge) : SameOutput bridge bridge :=
  ⟨rfl, rfl, rfl⟩

/-- The provider is left alone. -/
structure SameProvider (bridge next : Bridge) : Prop where
  provider_eq : next.provider = bridge.provider
  asked_eq : next.asked = bridge.asked

theorem SameProvider.refl (bridge : Bridge) : SameProvider bridge bridge :=
  ⟨rfl, rfl⟩

/-- What is queued, what was put out and the provider are left alone. -/
structure SameTraffic (bridge next : Bridge) : Prop
    extends SameOutput bridge next, SameProvider bridge next where
  input_eq : next.input = bridge.input

theorem SameTraffic.refl (bridge : Bridge) : SameTraffic bridge bridge :=
  ⟨.refl bridge, .refl bridge, rfl⟩

theorem tapes_retireSink (bridge : Bridge) : bridge.retireSink.tapes = bridge.tapes := by
  cases sink : bridge.sink <;> simp [retireSink, tapes, sink]

theorem tapes_setSink (bridge : Bridge) : bridge.setSink.tapes = bridge.tapes ++ [[]] := by
  cases sink : bridge.sink <;> simp [setSink, retireSink, tapes, sink]

theorem sameTraffic_setSink (bridge : Bridge) : SameTraffic bridge bridge.setSink := by
  refine ⟨⟨rfl, ?_, rfl⟩, ⟨rfl, rfl⟩, rfl⟩
  rw [tapes_setSink, List.flatten_append, List.flatten_singleton, List.append_nil]

theorem sameOutput_clearCallbacks (bridge : Bridge) : SameOutput bridge bridge.clearCallbacks :=
  ⟨rfl, congrArg List.flatten bridge.tapes_retireSink, rfl⟩

end Bridge

namespace Machine

/-- Why a machine changes. -/
inductive Cause
  /-- Values are queued. -/
  | accepting (values : List Word)
  | executing (source : InputSource)
  /-- Values are taken from the outbox. -/
  | taking (values : List Word)
  /-- A provider is registered that will make some answers, in place of the one there was. -/
  | providing (answers : List (Option Word))
  /-- The callbacks are dropped. -/
  | clearing
  /-- Something that concerns neither a value that goes in or out nor the provider: a mark, a patch,
  a sink. -/
  | aside
  deriving DecidableEq, Repr

/-- A change with its cause, between the machines before and after it. -/
structure Change where
  before : Machine
  cause : Cause
  after : Machine

variable {m mid next last final : Machine} {suspend : Suspend} {fuel : Nat} {cause : Cause}
  {past later : List Change} {operation : Operation} {operations : List Operation}

/-- What each cause does to a machine. -/
inductive Happens : Machine → Cause → Machine → Prop
  | accepting (m : Machine) (values : List Word) : Happens m (.accepting values) (m.feed values)
  | executing (m : Machine) (source : InputSource) :
      Happens m (.executing source) (m.execute source).2
  | taking {m : Machine} {values : List Word} {outbox : Array Word}
      (split : m.bridge.outbox.toList = values ++ outbox.toList) :
      Happens m (.taking values) { m with bridge := { m.bridge with outbox } }
  | providing (m : Machine) (answers : List (Option Word)) :
      Happens m (.providing answers) (m.setProvider answers)
  | clearing (m : Machine) : Happens m .clearing m.clearCallbacks
  | aside {m next : Machine} (kept : m.bridge.SameTraffic next.bridge) : Happens m .aside next

/-- Changes one after the other, each of which happens. -/
inductive Unfolds : Machine → List Change → Machine → Prop
  | nothing (m : Machine) : Unfolds m [] m
  | change {m mid last : Machine} {cause : Cause} {changes : List Change}
      (happens : m.Happens cause mid) (rest : Unfolds mid changes last) :
      Unfolds m (⟨m, cause, mid⟩ :: changes) last

/-- The changes that a run makes within `fuel` turns. -/
def runChanges (suspend : Suspend) : (fuel : Nat) → Machine → List Change
  | 0, _ => []
  | fuel + 1, m =>
      ⟨m, .executing suspend.source, (m.execute suspend.source).2⟩ ::
        match runTurn suspend m with
        | .again next => runChanges suspend fuel next
        | .done (_, final) => [⟨(m.execute suspend.source).2, .aside, final⟩]

/-- The changes that an operation makes. -/
def changes (fuel : Nat) (m : Machine) : Operation → List Change
  | .step =>
      if m.state.isTerminal then []
      else
        [⟨m, .aside, m.resumed⟩,
          ⟨m.resumed, .executing .provider, (m.resumed.execute .provider).2⟩,
          ⟨(m.resumed.execute .provider).2, .aside, m.step.2⟩]
  | .run suspend input =>
      if m.state.isTerminal then []
      else
        ⟨m, .accepting input, m.feed input⟩ :: ⟨m.feed input, .aside, m.started input⟩ ::
          runChanges suspend fuel (m.started input)
  | .feed values => [⟨m, .accepting values, m.feed values⟩]
  | .takeOutput => [⟨m, .taking m.takeOutput.1.toList, m.takeOutput.2⟩]
  | .drainOutput => [⟨m, .taking m.drainOutput.1, m.drainOutput.2⟩]
  | .setProvider answers => [⟨m, .providing answers, m.setProvider answers⟩]
  | .clearCallbacks => [⟨m, .clearing, m.clearCallbacks⟩]
  | operation => (m.perform fuel operation).toList.map fun went => ⟨m, .aside, went.2⟩

/-- The changes of operations that are performed one after the other. An operation that does not
return is the last. -/
def history (fuel : Nat) : Machine → List Operation → List Change
  | _, [] => []
  | m, operation :: rest =>
      m.changes fuel operation ++
        match m.perform fuel operation with
        | none => []
        | some (_, next) => history fuel next rest

/-! ## Rows of changes -/

theorem Unfolds.append (first : Unfolds m past mid) (second : Unfolds mid later last) :
    Unfolds m (past ++ later) last := by
  induction first with
  | nothing m => exact second
  | change happens _ ih => exact .change happens (ih second)

theorem Unfolds.split (unfolds : Unfolds m (past ++ later) last) :
    ∃ mid, Unfolds m past mid ∧ Unfolds mid later last := by
  induction past generalizing m with
  | nil => exact ⟨m, .nothing m, unfolds⟩
  | cons change past ih =>
      cases unfolds with
      | change happens rest =>
          obtain ⟨mid, first, second⟩ := ih rest
          exact ⟨mid, .change happens first, second⟩

theorem Unfolds.happens (unfolds : Unfolds m past last) :
    ∀ change ∈ past, change.before.Happens change.cause change.after := by
  induction unfolds with
  | nothing m => exact fun change among => nomatch among
  | change happens _ ih => exact List.forall_mem_cons.mpr ⟨happens, ih⟩

theorem unfolds_single (happens : m.Happens cause next) : Unfolds m [⟨m, cause, next⟩] next :=
  .change happens (.nothing next)

/-- **Flow.** Let something be held by a machine, and let every change add something behind it and
take something from its front. Then what was held at first and what was added is what was taken and
what is held at last. -/
theorem Unfolds.flow {α : Type} (unfolds : Unfolds m past last) (held : Machine → List α)
    (added taken : Change → List α)
    (balanced : ∀ change ∈ past,
      held change.before ++ added change = taken change ++ held change.after) :
    held m ++ past.flatMap added = past.flatMap taken ++ held last := by
  induction unfolds with
  | nothing m => exact List.append_nil _
  | change happens _ ih =>
      obtain ⟨here, others⟩ := List.forall_mem_cons.mp balanced
      rw [List.flatMap_cons, List.flatMap_cons, ← List.append_assoc, here, List.append_assoc,
        ih others, List.append_assoc]

/-! ## Sessions -/

theorem happens_marked (m : Machine) (state : State) : m.Happens .aside { m with state } :=
  .aside (.refl m.bridge)

theorem happens_takeOutput (m : Machine) :
    m.Happens (.taking m.takeOutput.1.toList) m.takeOutput.2 := by
  apply Happens.taking
  simp only [takeOutput, Bridge.take, Array.toList_extract, ← Array.getElem?_toList,
    List.extract_eq_take_drop]
  cases boxed : m.bridge.outbox.toList with
  | nil => simp
  | cons value rest =>
      have size : m.bridge.outbox.size = rest.length + 1 := by
        rw [← Array.length_toList, boxed, List.length_cons]
      simp [size]

theorem happens_drainOutput (m : Machine) :
    m.Happens (.taking m.drainOutput.1) m.drainOutput.2 :=
  .taking (List.append_nil _).symm

theorem eq_of_runTurn_again (turned : runTurn suspend m = .again next) :
    next = (m.execute suspend.source).2 := by
  unfold runTurn at turned
  split at turned
  · rename_i executed
    cases turned
    rw [executed]
  · rename_i executed
    split at turned
    · cases turned
    · cases turned
      rw [executed]
  all_goals cases turned

/-- The turn that ends a run only marks the machine behind its instruction. -/
theorem happens_of_runTurn_done {result : RunResult}
    (turned : runTurn suspend m = .done (result, final)) :
    (m.execute suspend.source).2.Happens .aside final := by
  cases runTurn_done_iff.mp turned with
  | output _ ended | needsInput ended | halted ended | failed ended =>
      rw [ended]
      exact happens_marked _ _

/-- The changes of a run happen one after the other, up to the machine that it leaves. -/
theorem unfolds_runChanges (suspend : Suspend) (fuel : Nat) (m : Machine) :
    ∃ last, Unfolds m (runChanges suspend fuel m) last ∧
      ∀ result final,
        iterate (fun m => some (runTurn suspend m)) fuel m = some (result, final) →
          final = last := by
  induction fuel generalizing m with
  | zero => exact ⟨m, .nothing m, fun result final returned => nomatch returned⟩
  | succ fuel ih =>
      have first : m.Happens (.executing suspend.source) (m.execute suspend.source).2 :=
        .executing m suspend.source
      cases turned : runTurn suspend m with
      | again next =>
          obtain rfl := eq_of_runTurn_again turned
          obtain ⟨last, unfolds, ends⟩ := ih (m.execute suspend.source).2
          refine ⟨last, ?_, ?_⟩
          · simp only [runChanges, turned]
            exact .change first unfolds
          · intro result final returned
            simp only [iterate, turned] at returned
            exact ends result final returned
      | done answer =>
          obtain ⟨result, final⟩ := answer
          refine ⟨final, ?_, ?_⟩
          · simp only [runChanges, turned]
            exact .change first (unfolds_single (happens_of_runTurn_done turned))
          · intro other last returned
            simp only [iterate, turned] at returned
            cases returned
            rfl

/-- The changes of an operation happen one after the other, up to the machine that it leaves. -/
def LeadsOn (fuel : Nat) (m : Machine) (operation : Operation) : Prop :=
  ∃ last, Unfolds m (m.changes fuel operation) last ∧
    ∀ answer next, m.perform fuel operation = some (answer, next) → next = last

theorem leadsOn_of_single {came : Except Error Answer}
    (changed : m.changes fuel operation = [⟨m, cause, last⟩])
    (performed : m.perform fuel operation = some (came, last)) (happens : m.Happens cause last) :
    LeadsOn fuel m operation := by
  refine ⟨last, changed ▸ unfolds_single happens, ?_⟩
  intro answer next again
  rw [performed] at again
  cases again
  rfl

theorem leadsOn_step (m : Machine) (fuel : Nat) : LeadsOn fuel m .step := by
  cases terminal : m.state.isTerminal with
  | true =>
      have stays : m.step.2 = m := by
        rcases State.halted_or_failed terminal with halted | failed
        · rw [step_of_halted halted]
        · rw [step_of_failed failed]
      refine ⟨m, ?_, ?_⟩
      · simp only [changes, terminal, ↓reduceIte]
        exact .nothing m
      · intro answer next performed
        cases performed
        exact stays
  | false =>
      have marked : (m.resumed.execute .provider).2.Happens .aside m.step.2 := by
        rw [step_of_live terminal rfl]
        exact happens_marked _ _
      refine ⟨m.step.2, ?_, ?_⟩
      · simp only [changes, terminal, Bool.false_eq_true, ↓reduceIte]
        exact .change (happens_marked m .running)
          (.change (.executing _ _) (unfolds_single marked))
      · intro answer next performed
        cases performed
        rfl

theorem leadsOn_run (m : Machine) (fuel : Nat) (suspend : Suspend) (input : List Word) :
    LeadsOn fuel m (.run suspend input) := by
  cases terminal : m.state.isTerminal with
  | true =>
      refine ⟨m, ?_, ?_⟩
      · simp only [changes, terminal, ↓reduceIte]
        exact .nothing m
      · intro answer next performed
        obtain ⟨⟨result, final⟩, returned, same⟩ := Option.map_eq_some_iff.mp performed
        cases same
        exact eq_of_run_of_terminal terminal returned
  | false =>
      obtain ⟨last, unfolds, ends⟩ := unfolds_runChanges suspend fuel (m.started input)
      refine ⟨last, ?_, ?_⟩
      · simp only [changes, terminal, Bool.false_eq_true, ↓reduceIte]
        exact .change (.accepting m input) (.change (happens_marked _ .running) unfolds)
      · intro answer next performed
        obtain ⟨⟨result, final⟩, returned, same⟩ := Option.map_eq_some_iff.mp performed
        cases same
        rw [run_of_live terminal] at returned
        exact ends result next returned

theorem leadsOn_poke (m : Machine) (fuel : Nat) (address value : Word) :
    LeadsOn fuel m (.poke address value) := by
  cases patched : m.poke address value with
  | error error =>
      have failed : m.perform fuel (.poke address value) = some (.error error, m) := by
        simp only [perform, patched]
      exact leadsOn_of_single (by simp only [changes, failed]; rfl) failed (.aside (.refl m.bridge))
  | ok next =>
      have performed : m.perform fuel (.poke address value) = some (.ok .nothing, next) := by
        simp only [perform, patched]
      refine leadsOn_of_single (by simp only [changes, performed]; rfl) performed (.aside ?_)
      rcases perform_poke_cases performed with rfl | ⟨index, rfl⟩
      · exact .refl _
      · exact .refl m.bridge

theorem leadsOn (m : Machine) (fuel : Nat) (kept : operation ≠ .reset) :
    LeadsOn fuel m operation := by
  cases operation with
  | step => exact m.leadsOn_step fuel
  | run suspend input => exact m.leadsOn_run fuel suspend input
  | poke address value => exact m.leadsOn_poke fuel address value
  | feed values => exact leadsOn_of_single rfl rfl (.accepting m values)
  | peek | snapshot => exact leadsOn_of_single rfl rfl (.aside (.refl m.bridge))
  | takeOutput => exact leadsOn_of_single rfl rfl m.happens_takeOutput
  | drainOutput => exact leadsOn_of_single rfl rfl m.happens_drainOutput
  | setSink => exact leadsOn_of_single rfl rfl (.aside m.bridge.sameTraffic_setSink)
  | setProvider answers => exact leadsOn_of_single rfl rfl (.providing m answers)
  | clearCallbacks => exact leadsOn_of_single rfl rfl (.clearing m)
  | reset => exact absurd rfl kept

/-- **Sessions are rows of changes.** The changes of a session without a reset happen one after the
other, up to the machine that the session leaves. -/
theorem unfolds_history (m : Machine) (fuel : Nat) (kept : .reset ∉ operations) :
    ∃ last, Unfolds m (m.history fuel operations) last ∧
      ∀ answers final, m.performAll fuel operations = some (answers, final) → final = last := by
  induction operations generalizing m with
  | nil =>
      refine ⟨m, .nothing m, ?_⟩
      intro answers final performed
      cases performed
      rfl
  | cons operation rest ih =>
      rw [List.mem_cons, not_or] at kept
      obtain ⟨mid, unfolds, leaves⟩ := m.leadsOn fuel (Ne.symm kept.1)
      cases performed : m.perform fuel operation with
      | none =>
          refine ⟨mid, ?_, ?_⟩
          · simpa only [history, performed, List.append_nil] using unfolds
          · intro answers final all
            obtain ⟨_, _, _, first, _⟩ := performAll_cons_eq_some_iff.mp all
            rw [performed] at first
            cases first
      | some went =>
          obtain ⟨answer, next⟩ := went
          obtain rfl := leaves answer next performed
          obtain ⟨last, later, ends⟩ := ih next kept.2
          refine ⟨last, ?_, ?_⟩
          · simp only [history, performed]
            exact unfolds.append later
          · intro answers final all
            obtain ⟨_, _, others, first, behind, _⟩ := performAll_cons_eq_some_iff.mp all
            rw [performed] at first
            cases first
            exact ends others final behind

/-! ## What holds before every change -/

section

variable {P : Machine → Prop}
  (executed : ∀ {source : InputSource} {m next : Machine} {outcome : Except Error Step},
    Executes source m outcome next → P m → P next)

include executed

/-- What instructions keep holds before every change that a run makes. -/
theorem runChanges_preserves (holds : P m) :
    ∀ change ∈ runChanges suspend fuel m, P change.before := by
  induction fuel generalizing m with
  | zero => exact List.forall_mem_nil _
  | succ fuel ih =>
      have went : P (m.execute suspend.source).2 := executed (m.executes suspend.source) holds
      refine List.forall_mem_cons.mpr ⟨holds, ?_⟩
      cases turned : runTurn suspend m with
      | again next =>
          obtain rfl := eq_of_runTurn_again turned
          exact ih went
      | done answer => exact List.forall_mem_singleton.mpr went

variable (marked : ∀ {m : Machine} (state : State), P m → P { m with state })
  (bridged : ∀ {m : Machine} (bridge : Bridge), P m → P { m with bridge })

include marked bridged

theorem changes_preserves (holds : P m) (operation : Operation) :
    ∀ change ∈ m.changes fuel operation, P change.before := by
  cases operation with
  | step =>
      cases terminal : m.state.isTerminal with
      | true =>
          simp only [changes, terminal, ↓reduceIte]
          exact List.forall_mem_nil _
      | false =>
          have resumed : P m.resumed := marked .running holds
          simp only [changes, terminal, Bool.false_eq_true, ↓reduceIte, List.forall_mem_cons]
          exact ⟨holds, resumed, executed (m.resumed.executes .provider) resumed,
            List.forall_mem_nil _⟩
  | run suspend input =>
      cases terminal : m.state.isTerminal with
      | true =>
          simp only [changes, terminal, ↓reduceIte]
          exact List.forall_mem_nil _
      | false =>
          have fed : P (m.feed input) := bridged _ holds
          simp only [changes, terminal, Bool.false_eq_true, ↓reduceIte, List.forall_mem_cons]
          exact ⟨holds, fed, runChanges_preserves executed (marked .running fed)⟩
  | feed | takeOutput | drainOutput | setProvider | clearCallbacks =>
      exact List.forall_mem_singleton.mpr holds
  | peek | poke | snapshot | setSink | reset =>
      intro change among
      obtain ⟨went, _, rfl⟩ := List.mem_map.mp among
      exact holds

/-- What instructions, marks, changes of the bridge, patches and resets keep holds before every
change of a session. -/
theorem history_preserves
    (patched : ∀ {m : Machine} (index : Fin m.memory.cells.size) (value : Word),
      P m → P { m with memory := m.memory.put index value })
    (reset : ∀ {m : Machine}, P m → P m.reset) (holds : P m) :
    ∀ change ∈ m.history fuel operations, P change.before := by
  induction operations generalizing m with
  | nil => exact List.forall_mem_nil _
  | cons operation rest ih =>
      refine List.forall_mem_append.mpr
        ⟨changes_preserves executed marked bridged holds operation, ?_⟩
      cases performed : m.perform fuel operation with
      | none => exact List.forall_mem_nil _
      | some went =>
          exact ih (perform_preserves executed marked bridged patched reset performed holds)

end

end Machine

end Intcode
