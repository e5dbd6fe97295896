import Intcode.Proofs.Execution

/-! # Where input comes from and where output goes

An input instruction takes the oldest queued value, whatever its source. Sources differ when the
queue is empty, and without a provider they differ in one point only: where the policy would come
in, the others leave the machine waiting as it was (`Machine.execute_eq_policy_or_waits`).

What is queued behind the values that are there, and what was put out before, have no part in
executing an instruction that need not wait (`Machine.Executes.amid`). So a machine may be fed
while it works, and its outbox may be emptied, without any change to what it does. -/

namespace Intcode

namespace Bridge

/-- The output that went where output goes now: to the sink or to the outbox. -/
def delivered (bridge : Bridge) : List Word :=
  match bridge.sink with
  | some tape => tape.toList
  | none => bridge.outbox.toList

theorem delivered_emit (bridge : Bridge) (value : Word) :
    (bridge.emit value).delivered = bridge.delivered ++ [value] := by
  unfold emit
  split
  · rename_i tape sink
    simp only [delivered, sink, Array.toList_push]
  · rename_i sink
    simp only [delivered, sink, Array.toList_push]

theorem delivered_pop (bridge : Bridge) : bridge.pop.2.delivered = bridge.delivered := by
  unfold pop
  split <;> rfl

theorem delivered_ask (bridge : Bridge) : bridge.ask.2.delivered = bridge.delivered := by
  unfold ask
  split <;> rfl

theorem input_pop (bridge : Bridge) : bridge.pop.2.input = bridge.input.tail := by
  unfold pop
  split
  · rename_i empty
    rw [empty]
    rfl
  · rename_i queued
    rw [queued]
    rfl

theorem input_ask (bridge : Bridge) : bridge.ask.2.input = bridge.input := by
  unfold ask
  split <;> rfl

theorem input_emit (bridge : Bridge) (value : Word) : (bridge.emit value).input = bridge.input := by
  unfold emit
  split <;> rfl

theorem provider_pop (bridge : Bridge) : bridge.pop.2.provider = bridge.provider := by
  unfold pop
  split <;> rfl

theorem asked_pop (bridge : Bridge) : bridge.pop.2.asked = bridge.asked := by
  unfold pop
  split <;> rfl

theorem sink_pop (bridge : Bridge) : bridge.pop.2.sink = bridge.sink := by
  unfold pop
  split <;> rfl

theorem sink_ask (bridge : Bridge) : bridge.ask.2.sink = bridge.sink := by
  unfold ask
  split <;> rfl

theorem ask_of_alone {bridge : Bridge} (alone : bridge.provider = none) :
    bridge.ask = (none, bridge) := by
  unfold ask
  rw [alone]

end Bridge

/-- The values an instruction hands out. -/
def handedOut : Except Error Step → List Word
  | .ok (.output value) => [value]
  | _ => []

namespace Machine

variable {m next : Machine} {source : InputSource} {outcome : Except Error Step}

/-! ## Sources -/

theorem nextInput_of_queued {value : Word} {rest : List Word}
    (queued : m.bridge.input = value :: rest) (source : InputSource) :
    m.nextInput source =
      (.ok (some value), { m with bridge := { m.bridge with input := rest } }) := by
  simp only [nextInput, Bridge.pop, queued]

theorem nextInput_queue_of_empty (empty : m.bridge.input = []) :
    m.nextInput .queue = (.ok none, m) := by
  simp only [nextInput, Bridge.pop, empty]

theorem nextInput_provider_of_empty (empty : m.bridge.input = [])
    (alone : m.bridge.provider = none) : m.nextInput .provider = (.ok none, m) := by
  simp only [nextInput, Bridge.pop, empty, Bridge.ask_of_alone alone]

theorem bridge_of_nextInput {answer : Except Error (Option Word)}
    (supplied : m.nextInput source = (answer, next)) :
    next.bridge = m.bridge.pop.2 ∨ next.bridge = m.bridge.pop.2.ask.2 := by
  unfold nextInput at supplied
  split at supplied
  · rename_i popped
    cases supplied
    exact .inl (by rw [popped])
  · rename_i bridge popped
    rw [popped]
    cases source with
    | queue =>
        cases supplied
        exact .inl rfl
    | provider =>
        cases supplied
        exact .inr rfl
    | policy =>
        dsimp only at supplied
        split at supplied
        · rename_i asked
          cases supplied
          exact .inr (by rw [asked])
        · rename_i asked
          split at supplied <;> cases supplied <;> exact .inr (by rw [asked])

/-- The value that the next instruction takes from the queue, if it is an input instruction. -/
def nextRead (m : Machine) : Option Word :=
  match m.plan with
  | .ok (_, .input _) => m.bridge.input.head?
  | _ => none

theorem eq_of_execute_queue_waits {m next : Machine}
    (waits : m.execute .queue = (.ok .needsInput, next)) : next = m ∧ m.bridge.input = [] := by
  cases execute_eq_iff.mp waits with
  | wait planned supplied =>
      cases queued : m.bridge.input with
      | nil =>
          rw [nextInput_queue_of_empty queued] at supplied
          exact ⟨(congrArg Prod.snd supplied).symm, rfl⟩
      | cons value rest =>
          rw [nextInput_of_queued queued] at supplied
          cases supplied

/-- An instruction waits for the queue when it is an input instruction and nothing is queued. -/
theorem execute_queue_waits_iff {next : Machine} :
    m.execute .queue = (.ok .needsInput, next) ↔
      next = m ∧ m.bridge.input = [] ∧
        ∃ instruction address, m.plan = .ok (instruction, .input address) := by
  constructor
  · intro waits
    obtain ⟨same, empty⟩ := eq_of_execute_queue_waits waits
    cases execute_eq_iff.mp waits with
    | wait planned supplied => exact ⟨same, empty, _, _, planned⟩
  · rintro ⟨rfl, empty, instruction, address, planned⟩
    exact (Executes.wait planned (nextInput_queue_of_empty empty)).execute_eq

/-- The policy always decides: no input instruction waits for it. -/
theorem policy_never_waits (m next : Machine) : m.execute .policy ≠ (.ok .needsInput, next) := by
  intro waits
  cases execute_eq_iff.mp waits with
  | wait planned supplied =>
      unfold nextInput at supplied
      split at supplied
      · cases supplied
      · dsimp only at supplied
        split at supplied
        · cases supplied
        · split at supplied <;> cases supplied

/-- **Sources without a provider.** Executing by any source is executing by the policy, or the
machine is left waiting as it was. -/
theorem execute_eq_policy_or_waits (alone : m.bridge.provider = none) (source : InputSource) :
    m.execute source = m.execute .policy ∨ m.execute source = (.ok .needsInput, m) := by
  rw [execute_eq_plan m source, execute_eq_plan m .policy]
  cases planned : m.plan with
  | error error => exact .inl rfl
  | ok pair =>
      obtain ⟨instruction, effect⟩ := pair
      cases effect with
      | input address =>
          cases queued : m.bridge.input with
          | cons value rest =>
              simp only [apply, nextInput_of_queued queued, true_or]
          | nil =>
              cases source with
              | policy => exact .inl rfl
              | queue => exact .inr (by simp only [apply, nextInput_queue_of_empty queued])
              | provider =>
                  exact .inr (by simp only [apply, nextInput_provider_of_empty queued alone])
      | _ => exact .inl rfl

/-- Executing by the provider is executing by the policy, or an input instruction is left waiting
that found nothing queued and was refused a value. -/
theorem execute_provider_eq_policy_or_refused (m : Machine) :
    m.execute .provider = m.execute .policy ∨
      ∃ instruction address bridge, m.plan = .ok (instruction, .input address) ∧
        m.bridge.input = [] ∧ m.bridge.ask = (none, bridge) ∧
        m.execute .provider = (.ok .needsInput, { m with bridge }) := by
  rw [execute_eq_plan m .provider, execute_eq_plan m .policy]
  cases planned : m.plan with
  | error error => exact .inl rfl
  | ok pair =>
      obtain ⟨instruction, effect⟩ := pair
      cases effect with
      | input address =>
          cases queued : m.bridge.input with
          | cons value rest => simp only [apply, nextInput_of_queued queued, true_or]
          | nil =>
              cases asked : m.bridge.ask with
              | mk answer bridge =>
                  cases answer with
                  | some value => simp only [apply, nextInput, Bridge.pop, queued, asked, true_or]
                  | none =>
                      refine .inr ⟨instruction, address, bridge, rfl, rfl, rfl, ?_⟩
                      simp only [apply, nextInput, Bridge.pop, queued, asked]
      | _ => exact .inl rfl

/-- An input instruction that is refused a value underruns under the strict policy. -/
theorem execute_policy_of_refused {instruction : Instruction} {address : Word} {bridge : Bridge}
    (planned : m.plan = .ok (instruction, .input address)) (empty : m.bridge.input = [])
    (refused : m.bridge.ask = (none, bridge)) (strict : m.config.underrun = .error) :
    m.execute .policy = (.error (Error.inputUnderrun m.ip), { m with bridge }) := by
  have supplied : m.nextInput .policy = (.error (Error.inputUnderrun m.ip), { m with bridge }) := by
    simp only [nextInput, Bridge.pop, empty, refused, strict]
  exact (Executes.underrun planned supplied).execute_eq

/-- Under the lenient policy an input instruction that is refused a value reads the zero it would
have read if it had been queued. -/
theorem execute_policy_of_refused_lenient {instruction : Instruction} {address : Word}
    {bridge : Bridge} (planned : m.plan = .ok (instruction, .input address))
    (empty : m.bridge.input = []) (refused : m.bridge.ask = (none, bridge))
    (lenient : m.config.underrun = .zero) (source : InputSource) :
    m.execute .policy = ({ m with bridge }.feed [0]).execute source := by
  have unread : bridge.input = [] := by
    have kept := m.bridge.input_ask
    rw [refused, empty] at kept
    exact kept
  have supplied : m.nextInput .policy = (.ok (some 0), { m with bridge }) := by
    simp only [nextInput, Bridge.pop, empty, refused, lenient]
  have queued : ({ m with bridge }.feed [0]).bridge.input = [0] :=
    congrArg (· ++ [0]) unread
  have fed : ({ m with bridge }.feed [0]).nextInput source = (.ok (some 0), { m with bridge }) := by
    rw [nextInput_of_queued queued, ← unread]
    rfl
  have plannedFed : ({ m with bridge }.feed [0]).plan = .ok (instruction, .input address) := planned
  rw [execute_eq_plan, planned, execute_eq_plan, plannedFed]
  simp only [apply, supplied, fed]

/-- An input instruction does not wait when something is queued. -/
theorem ne_needsInput_of_queued {value : Word} {rest : List Word}
    (queued : m.bridge.input = value :: rest) (executed : m.execute source = (outcome, next)) :
    outcome ≠ .ok .needsInput := by
  rintro rfl
  cases execute_eq_iff.mp executed with
  | wait planned supplied =>
      rw [nextInput_of_queued queued] at supplied
      cases supplied

/-! ## What executing does to the bridge -/

theorem Executes.delivered_eq (executed : Executes source m outcome next) :
    next.bridge.delivered = m.bridge.delivered ++ handedOut outcome := by
  have supply {answer : Except Error (Option Word)} {bridge : Bridge}
      (supplied : m.nextInput source = (answer, { m with bridge })) :
      bridge.delivered = m.bridge.delivered := by
    rcases bridge_of_nextInput supplied with same | same
    · exact (congrArg Bridge.delivered same).trans m.bridge.delivered_pop
    · exact (congrArg Bridge.delivered same).trans
        ((Bridge.delivered_ask _).trans m.bridge.delivered_pop)
  cases executed with
  | emit planned => exact m.bridge.delivered_emit _
  | read planned supplied place => exact (supply supplied).trans (List.append_nil _).symm
  | wait planned supplied => exact (supply supplied).trans (List.append_nil _).symm
  | underrun planned supplied => exact (supply supplied).trans (List.append_nil _).symm
  | _ => exact (List.append_nil _).symm

theorem nextRead_of_input {instruction : Instruction} {address : Word}
    (planned : m.plan = .ok (instruction, .input address)) :
    m.nextRead = m.bridge.input.head? := by
  simp only [nextRead, planned]

theorem nextRead_of_plan {plan : Except Error (Instruction × Effect)} (planned : m.plan = plan)
    (other : ∀ instruction address, plan ≠ .ok (instruction, .input address)) :
    m.nextRead = none := by
  unfold nextRead
  rw [planned]
  split
  · exact absurd rfl (other _ _)
  · rfl

/-- An instruction takes what it reads from the front of the queue and leaves the rest. -/
theorem Executes.queue_eq (executed : Executes source m outcome next) :
    m.bridge.input = m.nextRead.toList ++ next.bridge.input := by
  have supply {answer : Except Error (Option Word)} {instruction : Instruction} {address : Word}
      {bridge : Bridge} (planned : m.plan = .ok (instruction, .input address))
      (supplied : m.nextInput source = (answer, { m with bridge })) :
      m.bridge.input = m.nextRead.toList ++ bridge.input := by
    have rest : bridge.input = m.bridge.input.tail := by
      rcases bridge_of_nextInput supplied with same | same
      · exact (congrArg Bridge.input same).trans m.bridge.input_pop
      · exact (congrArg Bridge.input same).trans
          ((Bridge.input_ask _).trans m.bridge.input_pop)
    rw [nextRead_of_input planned, rest]
    cases m.bridge.input <;> rfl
  have unread {plan : Except Error (Instruction × Effect)} (planned : m.plan = plan)
      (other : ∀ instruction address, plan ≠ .ok (instruction, .input address)) :
      m.bridge.input = m.nextRead.toList ++ m.bridge.input := by
    rw [nextRead_of_plan planned other]
    rfl
  cases executed with
  | read planned supplied place => exact supply planned supplied
  | wait planned supplied => exact supply planned supplied
  | underrun planned supplied => exact supply planned supplied
  | emit planned =>
      exact (unread planned (by simp)).trans
        (congrArg _ (m.bridge.input_emit _).symm)
  | fault planned => exact unread planned (by simp)
  | store planned place => exact unread planned (by simp)
  | jump planned => exact unread planned (by simp)
  | adjustBase planned => exact unread planned (by simp)
  | pass planned => exact unread planned (by simp)
  | halt planned => exact unread planned (by simp)

theorem Executes.alone (executed : Executes source m outcome next)
    (alone : m.bridge.provider = none) : next.bridge.provider = none := by
  have supply {answer : Except Error (Option Word)} {bridge : Bridge}
      (supplied : m.nextInput source = (answer, { m with bridge })) :
      bridge.provider = none := by
    have popped : m.bridge.pop.2.provider = none := m.bridge.provider_pop.trans alone
    rcases bridge_of_nextInput supplied with same | same
    · exact (congrArg Bridge.provider same).trans popped
    · rw [Bridge.ask_of_alone popped] at same
      exact (congrArg Bridge.provider same).trans popped
  cases executed with
  | emit planned =>
      change (m.bridge.emit _).provider = none
      unfold Bridge.emit
      split <;> exact alone
  | read planned supplied place => exact supply supplied
  | wait planned supplied => exact supply supplied
  | underrun planned supplied => exact supply supplied
  | _ => exact alone

theorem Executes.unheard (executed : Executes source m outcome next)
    (unheard : m.bridge.sink = none) : next.bridge.sink = none := by
  have supply {answer : Except Error (Option Word)} {bridge : Bridge}
      (supplied : m.nextInput source = (answer, { m with bridge })) : bridge.sink = none := by
    have popped : m.bridge.pop.2.sink = none := m.bridge.sink_pop.trans unheard
    rcases bridge_of_nextInput supplied with same | same
    · exact (congrArg Bridge.sink same).trans popped
    · exact (congrArg Bridge.sink same).trans (m.bridge.pop.2.sink_ask.trans popped)
  cases executed with
  | emit planned =>
      change (m.bridge.emit _).sink = none
      unfold Bridge.emit
      rw [unheard]
  | read planned supplied place => exact supply supplied
  | wait planned supplied => exact supply supplied
  | underrun planned supplied => exact supply supplied
  | _ => exact unheard

theorem bridge_of_nextInput_queue {answer : Except Error (Option Word)}
    (supplied : m.nextInput .queue = (answer, next)) : next.bridge = m.bridge.pop.2 := by
  unfold nextInput at supplied
  split at supplied <;> rename_i popped <;> cases supplied <;> rw [popped]

/-- Reading from the queue leaves the provider alone. -/
theorem Executes.unasked (executed : Executes .queue m outcome next) :
    next.bridge.provider = m.bridge.provider ∧ next.bridge.asked = m.bridge.asked := by
  have supply {answer : Except Error (Option Word)} {bridge : Bridge}
      (supplied : m.nextInput .queue = (answer, { m with bridge })) :
      bridge.provider = m.bridge.provider ∧ bridge.asked = m.bridge.asked := by
    have same : bridge = m.bridge.pop.2 := bridge_of_nextInput_queue supplied
    rw [same]
    exact ⟨m.bridge.provider_pop, m.bridge.asked_pop⟩
  cases executed with
  | emit planned =>
      change (m.bridge.emit _).provider = _ ∧ (m.bridge.emit _).asked = _
      unfold Bridge.emit
      split <;> exact ⟨rfl, rfl⟩
  | read planned supplied place => exact supply supplied
  | wait planned supplied => exact supply supplied
  | underrun planned supplied => exact supply supplied
  | _ => exact ⟨rfl, rfl⟩

/-! ## Other surroundings -/

/-- The machine in another state, with output put out before its own and input queued behind its
own. -/
def amid (m : Machine) (state : State) (earlier : Array Word) (later : List Word) : Machine :=
  { m with
    state
    bridge :=
      { m.bridge with
        input := m.bridge.input ++ later
        outbox := earlier ++ m.bridge.outbox } }

/-- **Surroundings do not matter.** An instruction that finds what it needs in the queue comes to
the same in any surroundings and under any source. -/
theorem Executes.amid (executed : Executes .queue m outcome next)
    (fed : outcome ≠ .ok .needsInput) (state : State) (earlier : Array Word) (later : List Word)
    (source : InputSource) :
    Executes source (m.amid state earlier later) outcome (next.amid state earlier later) := by
  cases executed with
  | fault planned => exact .fault planned
  | store planned place => exact .store planned place
  | @read instruction address value bridge index planned supplied place =>
      cases queued : m.bridge.input with
      | nil =>
          rw [nextInput_queue_of_empty queued] at supplied
          cases supplied
      | cons oldest rest =>
          rw [nextInput_of_queued queued] at supplied
          cases supplied
          have queuedAmid : (m.amid state earlier later).bridge.input = value :: (rest ++ later) :=
            congrArg (· ++ later) queued
          exact .read planned (nextInput_of_queued queuedAmid source) place
  | wait planned supplied => exact absurd rfl fed
  | underrun planned supplied =>
      cases queued : m.bridge.input with
      | nil => rw [nextInput_queue_of_empty queued] at supplied; cases supplied
      | cons oldest rest => rw [nextInput_of_queued queued] at supplied; cases supplied
  | @emit instruction value planned =>
      have same : ({ m with bridge := m.bridge.emit value }.advance instruction).amid state
            earlier later =
          { m.amid state earlier later with
            bridge := (m.amid state earlier later).bridge.emit value }.advance instruction := by
        cases sink : m.bridge.sink <;>
          simp [Machine.amid, advance, Bridge.emit, sink]
      rw [same]
      exact .emit planned
  | jump planned => exact .jump planned
  | adjustBase planned => exact .adjustBase planned
  | pass planned => exact .pass planned
  | halt planned => exact .halt planned

theorem feed_eq_amid (m : Machine) (values : List Word) :
    m.feed values = m.amid m.state #[] values := by
  simp only [feed, Bridge.feed, amid, Array.empty_append]

/-- A machine may be fed before or after an instruction that need not wait. -/
theorem Executes.feed (executed : Executes .queue m outcome next)
    (fed : outcome ≠ .ok .needsInput) (values : List Word) :
    Executes .queue (m.feed values) outcome (next.feed values) := by
  rw [feed_eq_amid, feed_eq_amid, executed.state_eq]
  exact executed.amid fed m.state #[] values .queue

theorem nextRead_feed {m next : Machine} {outcome : Except Error Step}
    (executed : m.execute .queue = (outcome, next)) (fed : outcome ≠ .ok .needsInput)
    (values : List Word) : (m.feed values).nextRead = m.nextRead := by
  have samePlan : (m.feed values).plan = m.plan := rfl
  unfold nextRead
  rw [samePlan]
  split
  · rename_i instruction address planned
    cases queued : m.bridge.input with
    | cons value rest => simp only [feed, Bridge.feed, queued, List.cons_append, List.head?_cons]
    | nil =>
        have waits : m.execute .queue = (.ok .needsInput, m) :=
          (Executes.wait planned (nextInput_queue_of_empty queued)).execute_eq
        rw [waits] at executed
        cases executed
        exact absurd rfl fed
  · rfl

end Machine

end Intcode
