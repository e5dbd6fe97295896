import Mathlib.Data.List.ReduceOption
import Intcode.Proofs.Routing

/-! # Nothing that goes in or out is lost

A session accepts what it feeds and what it gives to runs of live machines
(`Machine.accepted_history`). Along its history every value that was accepted into the queue is
stored by one input instruction, in the order in which they were accepted, or is queued still. What
the provider returns is stored by the instruction that asked, which finds the queue empty. Nothing
but an instruction asks, and it asks once, so each answer that a provider was to make is used up by
one instruction, is dropped together with the provider or is still to come. Every value that is put
out goes to the sink that is registered, or else to the outbox, where it stays until it is taken
(`Machine.Conserves`).

Where the output goes has no part in what the machine does: without its sinks and its outbox
(`Machine.unrouted`) it executes the same instructions on the same memory and registers. -/

namespace Intcode

namespace Bridge

/-- A value goes to one place: to the tape of the sink, or without a sink to the outbox. -/
inductive Routes (bridge : Bridge) (value : Word) (next : Bridge) : Prop
  | sunk {tape : Array Word} (sink : bridge.sink = some tape)
      (heard : next.sink = some (tape.push value)) (outbox : next.outbox = bridge.outbox)
      (oldTapes : next.oldTapes = bridge.oldTapes)
  | boxed (sink : bridge.sink = none) (unheard : next.sink = none)
      (outbox : next.outbox = bridge.outbox.push value) (oldTapes : next.oldTapes = bridge.oldTapes)

theorem routes_emit (bridge : Bridge) (value : Word) : bridge.Routes value (bridge.emit value) := by
  unfold emit
  split
  · rename_i tape sink
    exact .sunk sink rfl rfl rfl
  · rename_i sink
    exact .boxed sink sink rfl rfl

theorem lastOutput_emit (bridge : Bridge) (value : Word) :
    (bridge.emit value).lastOutput = some value := by
  unfold emit
  split <;> rfl

theorem tapes_emit (bridge : Bridge) (value : Word) :
    (bridge.emit value).tapes.flatten =
      bridge.tapes.flatten ++ if bridge.sink.isSome then [value] else [] := by
  cases sink : bridge.sink <;> simp [emit, tapes, sink]

theorem outbox_emit (bridge : Bridge) (value : Word) :
    (bridge.emit value).outbox.toList =
      bridge.outbox.toList ++ if bridge.sink.isSome then [] else [value] := by
  cases sink : bridge.sink <;> simp [emit, sink]

/-- A provider that returns a value was asked. -/
theorem asked_ask {bridge : Bridge} {value : Word} (answered : bridge.ask.1 = some value) :
    bridge.ask.2.asked = bridge.asked + 1 := by
  unfold ask at answered ⊢
  split
  · rename_i absent
    simp only [absent] at answered
    cases answered
  · rfl
  · rfl

theorem sameOutput_ask (bridge : Bridge) : bridge.SameOutput bridge.ask.2 := by
  unfold ask
  split <;> exact ⟨rfl, rfl, rfl⟩

theorem sameProvider_emit (bridge : Bridge) (value : Word) :
    bridge.SameProvider (bridge.emit value) := by
  unfold emit
  split <;> exact ⟨rfl, rfl⟩

/-- The answers that are still to come. -/
def answers (bridge : Bridge) : List (Option Word) :=
  bridge.provider.getD []

/-- The answers that are used up when the provider was asked until a later moment. -/
def usedBy (bridge next : Bridge) : List (Option Word) :=
  bridge.answers.take (next.asked - bridge.asked)

variable {bridge next : Bridge} {answer : Option Word}

theorem SameProvider.answers_eq (same : bridge.SameProvider next) :
    next.answers = bridge.answers := by
  rw [answers, same.provider_eq, answers]

theorem SameProvider.usedBy_eq (same : bridge.SameProvider next) : bridge.usedBy next = [] := by
  rw [usedBy, same.asked_eq, Nat.sub_self, List.take_zero]

/-- The provider is left alone, or it is asked once and nothing else is done to it. -/
inductive Asks (bridge next : Bridge) : Option Word → Prop
  | idle (same : bridge.SameProvider next) : Asks bridge next none
  | once {answer : Option Word} (asked : bridge.ask.1 = answer)
      (same : bridge.ask.2.SameProvider next) : Asks bridge next answer

/-- A provider that is asked once uses up one answer, if it has one. -/
theorem usedBy_ask (bridge : Bridge) :
    bridge.answers = bridge.usedBy bridge.ask.2 ++ bridge.ask.2.answers ∧
      (bridge.usedBy bridge.ask.2).length ≤ 1 ∧
      (bridge.usedBy bridge.ask.2).reduceOption = bridge.ask.1.toList := by
  unfold usedBy answers ask
  rcases registered : bridge.provider with _ | ⟨_ | ⟨answer, rest⟩⟩
  · simp [registered]
  · simp
  · cases answer <;> simp

theorem Asks.used (asks : bridge.Asks next answer) :
    bridge.answers = bridge.usedBy next ++ next.answers ∧
      (bridge.usedBy next).length ≤ 1 ∧ (bridge.usedBy next).reduceOption = answer.toList := by
  cases asks with
  | idle same =>
      rw [same.usedBy_eq, same.answers_eq]
      exact ⟨rfl, Nat.zero_le 1, rfl⟩
  | once asked same =>
      have used : bridge.usedBy next = bridge.usedBy bridge.ask.2 := by
        rw [usedBy, same.asked_eq, usedBy]
      rw [used, same.answers_eq, ← asked]
      exact bridge.usedBy_ask

end Bridge

/-- What is put into the cell at an address is read there. -/
theorem Memory.read_put {memory : Memory} {address value : Word} {index : Fin memory.cells.size}
    (place : memory.locate "memory::write" address = .ok index) :
    (memory.put index value).read address = .ok value := by
  have size : (memory.put index value).cells.size = memory.cells.size := Array.size_set index.isLt
  unfold locate at place
  split at place
  · cases place
  · rename_i nonnegative
    split at place
    · rename_i inside
      cases place
      unfold read locate
      rw [if_neg nonnegative, dif_pos (size.symm ▸ inside)]
      simp [put, Except.map]
    · cases place

namespace Machine

/-- Where an input instruction finds its value. -/
inductive Origin
  | queue
  | provider
  | policy
  deriving DecidableEq, Repr

/-- Where the next input instruction finds its value, if it finds one: the queue comes first, then
the provider, and the policy has the last word. -/
def origin (m : Machine) : Origin :=
  match m.bridge.input, m.bridge.ask.1 with
  | _ :: _, _ => .queue
  | [], some _ => .provider
  | [], none => .policy

/-- Whether something may be done to the provider. -/
def Cause.concernsProvider : Cause → Bool
  | .executing _ | .providing _ | .clearing => true
  | .accepting _ | .taking _ | .aside => false

namespace Change

/-- The values that are accepted into the queue. -/
def accepted (change : Change) : List Word :=
  match change.cause with
  | .accepting values => values
  | _ => []

/-- The values that are taken from the outbox. -/
def taken (change : Change) : List Word :=
  match change.cause with
  | .taking values => values
  | _ => []

/-- The value that is put out while a sink is registered. -/
def sunk (change : Change) : List Word :=
  if change.before.bridge.sink.isSome then change.emitted else []

/-- The value that is put out while no sink is registered. -/
def unsunk (change : Change) : List Word :=
  if change.before.bridge.sink.isSome then [] else change.emitted

/-- The value that the provider returns when an instruction asks it. -/
def returned (change : Change) : List Word :=
  match change.cause with
  | .executing _ =>
      if change.after.bridge.asked = change.before.bridge.asked then []
      else change.before.bridge.ask.1.toList
  | _ => []

/-- The answers that a provider will make when it is registered. -/
def provided (change : Change) : List (Option Word) :=
  match change.cause with
  | .providing answers => answers
  | _ => []

/-- The answers that a provider had still to make when it is dropped. -/
def dropped (change : Change) : List (Option Word) :=
  match change.cause with
  | .providing _ | .clearing => change.before.bridge.answers
  | _ => []

/-- The answers that an instruction uses up. -/
def used (change : Change) : List (Option Word) :=
  match change.cause with
  | .executing _ => change.before.bridge.usedBy change.after.bridge
  | _ => []

/-- The value that an input instruction stores if it finds it at some origin. It is read off the
cell that the instruction names. -/
def stored (origin : Origin) (change : Change) : List Word :=
  match change.cause with
  | .executing source =>
      match change.before.plan, (change.before.execute source).1 with
      | .ok (_, .input address), .ok .executed =>
          if change.before.origin = origin then
            (change.after.memory.read address).toOption.toList
          else []
      | _, _ => []
  | _ => []

/-- What a change does to the input: what is queued or accepted is stored or queued afterwards, and
what the provider returns is stored, which it is asked for when nothing is queued. What the policy
makes up is zero. -/
structure KeepsInput (change : Change) : Prop where
  queue : change.before.bridge.input ++ change.accepted =
    change.stored .queue ++ change.after.bridge.input
  provider : change.returned = change.stored .provider
  starved : change.returned ≠ [] → change.before.bridge.input = []
  invented : ∀ value ∈ change.stored .policy, value = 0

/-- What a change does to the provider: an answer that was to come is used up, is dropped or is
still to come. An instruction uses up one answer at most, and stores it unless it is a refusal. -/
structure KeepsAnswers (change : Change) : Prop where
  answers : change.before.bridge.answers ++ change.provided =
    (change.used ++ change.dropped) ++ change.after.bridge.answers
  atMostOne : change.used.length ≤ 1
  used : change.used.reduceOption = change.stored .provider
  alone : change.cause.concernsProvider = false →
    change.before.bridge.SameProvider change.after.bridge

/-- What a change does to the output: a value that is put out goes to one place, and those in the
outbox stay there or are taken. -/
structure KeepsOutput (change : Change) : Prop where
  routed : ∀ value ∈ change.emitted, change.before.bridge.Routes value change.after.bridge
  tapes : change.after.bridge.tapes.flatten = change.before.bridge.tapes.flatten ++ change.sunk
  outbox : change.before.bridge.outbox.toList ++ change.unsunk =
    change.taken ++ change.after.bridge.outbox.toList
  newest : change.after.lastOutput = change.emitted.getLast?.or change.before.lastOutput

end Change

variable {m next last : Machine} {source : InputSource} {bridge : Bridge}
  {outcome : Except Error Step} {past : List Change}

/-! ## What an instruction reads and puts out -/

theorem origin_of_queued {value : Word} {rest : List Word}
    (queued : m.bridge.input = value :: rest) : m.origin = .queue := by
  simp only [origin, queued]

theorem origin_of_provided {value : Word} (empty : m.bridge.input = [])
    (answered : m.bridge.ask.1 = some value) : m.origin = .provider := by
  simp only [origin, empty, answered]

theorem origin_of_refused (empty : m.bridge.input = []) (refused : m.bridge.ask.1 = none) :
    m.origin = .policy := by
  simp only [origin, empty, refused]

/-- What an input instruction finds, and the bridge that it leaves. -/
inductive Finds (m : Machine) : Except Error (Option Word) → Bridge → Prop
  | queued {value : Word} {rest : List Word} (queued : m.bridge.input = value :: rest) :
      Finds m (.ok (some value)) { m.bridge with input := rest }
  | provided {value : Word} (empty : m.bridge.input = []) (answered : m.bridge.ask.1 = some value) :
      Finds m (.ok (some value)) m.bridge.ask.2
  | invented (empty : m.bridge.input = []) (refused : m.bridge.ask.1 = none) :
      Finds m (.ok (some 0)) m.bridge.ask.2
  | unasked (empty : m.bridge.input = []) : Finds m (.ok none) m.bridge
  | refused {answer : Except Error (Option Word)} (empty : m.bridge.input = [])
      (refused : m.bridge.ask.1 = none) (barren : ∀ value, answer ≠ .ok (some value)) :
      Finds m answer m.bridge.ask.2

theorem finds_of_nextInput {answer : Except Error (Option Word)}
    (supplied : m.nextInput source = (answer, next)) : Finds m answer next.bridge := by
  cases queued : m.bridge.input with
  | cons value rest =>
      rw [nextInput_of_queued queued] at supplied
      cases supplied
      exact .queued queued
  | nil =>
      cases source with
      | queue =>
          rw [nextInput_queue_of_empty queued] at supplied
          cases supplied
          exact .unasked queued
      | provider =>
          simp only [nextInput, Bridge.pop, queued] at supplied
          cases supplied
          cases answered : m.bridge.ask.1 with
          | some value => exact .provided queued answered
          | none => exact .refused queued answered (by simp)
      | policy =>
          simp only [nextInput, Bridge.pop, queued] at supplied
          split at supplied
          · rename_i value bridge asked
            cases supplied
            have provided : Finds m (.ok (some value)) m.bridge.ask.2 :=
              .provided queued (congrArg Prod.fst asked)
            rwa [asked] at provided
          · rename_i bridge asked
            have refused : m.bridge.ask.1 = none := congrArg Prod.fst asked
            split at supplied
            · cases supplied
              have invented := Finds.invented queued refused
              rwa [asked] at invented
            · cases supplied
              have underrun : Finds m (.error (Error.inputUnderrun m.ip)) m.bridge.ask.2 :=
                .refused queued refused (by simp)
              rwa [asked] at underrun

/-- An instruction that reads a value stores it. -/
structure Reads (m : Machine) (outcome : Except Error Step) (next : Machine) (value : Word) :
    Prop where
  executed : outcome = .ok .executed
  found : Finds m (.ok (some value)) next.bridge
  stored : ∃ instruction address, m.plan = .ok (instruction, .input address) ∧
    next.memory.read address = .ok value

/-- An instruction that reads no value leaves the queue, and the provider makes no answer to it but
a refusal. -/
structure Unread (m : Machine) (outcome : Except Error Step) (next : Machine) : Prop where
  unstored : outcome = .ok .executed →
    ∀ instruction address, m.plan ≠ .ok (instruction, .input address)
  input_eq : next.bridge.input = m.bridge.input
  asks : m.bridge.Asks next.bridge none

theorem Finds.unread {answer : Except Error (Option Word)} (found : Finds m answer bridge)
    (barren : ∀ value, answer ≠ .ok (some value)) :
    bridge.input = m.bridge.input ∧ m.bridge.Asks bridge none := by
  cases found with
  | queued | provided | invented => exact absurd rfl (barren _)
  | unasked empty => exact ⟨rfl, .idle (.refl m.bridge)⟩
  | refused empty refused => exact ⟨m.bridge.input_ask, .once refused (.refl _)⟩

/-- An instruction that finds a value has asked for no other than this one. -/
theorem Finds.asks {value : Word} (found : Finds m (.ok (some value)) bridge) :
    m.bridge.Asks bridge (if m.origin = .provider then some value else none) := by
  generalize answer_eq : (Except.ok (some value) : Except Error (Option Word)) = answer at found
  cases found with
  | queued queued =>
      rw [origin_of_queued queued]
      exact .idle ⟨rfl, rfl⟩
  | provided empty answered =>
      cases answer_eq
      rw [if_pos (origin_of_provided empty answered)]
      exact .once answered (.refl _)
  | invented empty refused =>
      rw [origin_of_refused empty refused]
      exact .once refused (.refl _)
  | unasked => cases answer_eq
  | refused _ _ barren => exact absurd answer_eq.symm (barren value)

/-- An instruction reads a value, or it reads none. -/
theorem Executes.reads_or_unread (executed : Executes source m outcome next) :
    (∃ value, Reads m outcome next value) ∨ Unread m outcome next := by
  have other {effect : Effect} {instruction : Instruction}
      (planned : m.plan = .ok (instruction, effect)) (noInput : ∀ address, effect ≠ .input address)
      (input_eq : next.bridge.input = m.bridge.input)
      (alone : m.bridge.SameProvider next.bridge) : Unread m outcome next := by
    refine ⟨?_, input_eq, .idle alone⟩
    intro _ instruction address same
    rw [planned] at same
    cases same
    exact noInput address rfl
  cases executed with
  | read planned supplied place =>
      have found := finds_of_nextInput supplied
      exact .inl ⟨_, rfl, found, _, _, planned, Memory.read_put place⟩
  | wait planned supplied =>
      obtain ⟨input_eq, asks⟩ := (finds_of_nextInput supplied).unread (by simp)
      exact .inr ⟨by simp, input_eq, asks⟩
  | underrun planned supplied =>
      obtain ⟨input_eq, asks⟩ := (finds_of_nextInput supplied).unread (by simp)
      exact .inr ⟨by simp, input_eq, asks⟩
  | fault planned => exact .inr ⟨by simp, rfl, .idle (.refl m.bridge)⟩
  | emit planned =>
      exact .inr (other planned (by simp) (m.bridge.input_emit _) (m.bridge.sameProvider_emit _))
  | store planned | jump planned | adjustBase planned | pass planned | halt planned =>
      exact .inr (other planned (by simp) rfl (.refl m.bridge))

/-- An instruction puts a value out, or it leaves alone what was put out. -/
theorem Executes.emits_or_silent (executed : Executes source m outcome next) :
    (∃ value, outcome = .ok (.output value) ∧ next.bridge = m.bridge.emit value) ∨
      handedOut outcome = [] ∧ m.bridge.SameOutput next.bridge := by
  have supply {answer : Except Error (Option Word)} {bridge : Bridge}
      (supplied : m.nextInput source = (answer, { m with bridge })) :
      m.bridge.SameOutput bridge := by
    cases finds_of_nextInput supplied with
    | queued | unasked => exact ⟨rfl, rfl, rfl⟩
    | provided | invented | refused => exact m.bridge.sameOutput_ask
  cases executed with
  | emit planned => exact .inl ⟨_, rfl, rfl⟩
  | read planned supplied place => exact .inr ⟨rfl, supply supplied⟩
  | wait planned supplied => exact .inr ⟨rfl, supply supplied⟩
  | underrun planned supplied => exact .inr ⟨rfl, supply supplied⟩
  | fault | store | jump | adjustBase | pass | halt => exact .inr ⟨rfl, .refl m.bridge⟩

/-! ## What a change keeps -/

namespace Change

theorem stored_of_reads {value : Word} (reads : Reads m (m.execute source).1 next value)
    (origin : Origin) :
    (mk m (.executing source) next).stored origin =
      if m.origin = origin then [value] else [] := by
  obtain ⟨instruction, address, planned, read⟩ := reads.stored
  simp only [stored, planned, reads.executed, read]
  rfl

theorem stored_of_unread (unread : Unread m (m.execute source).1 next) (origin : Origin) :
    (mk m (.executing source) next).stored origin = [] := by
  unfold stored
  dsimp only
  split
  · rename_i planned executed
    exact absurd planned (unread.unstored executed _ _)
  · rfl

theorem returned_eq (before after : Machine) (source : InputSource) :
    (mk before (.executing source) after).returned =
      if after.bridge.asked = before.bridge.asked then [] else before.bridge.ask.1.toList :=
  rfl

end Change

theorem Reads.keepsInput {value : Word} (reads : Reads m (m.execute source).1 next value) :
    (Change.mk m (.executing source) next).KeepsInput := by
  have stored := Change.stored_of_reads reads
  have returned := Change.returned_eq m next source
  have found := reads.found
  generalize answer_eq : (Except.ok (some value) : Except Error (Option Word)) = answer at found
  generalize left : next.bridge = bridge at found returned
  cases found with
  | @queued oldest rest queued =>
      cases answer_eq
      have origin := origin_of_queued queued
      rw [if_pos rfl] at returned
      refine ⟨?_, ?_, fun asked => absurd returned asked, ?_⟩
      · rw [stored, if_pos origin, left]
        exact (List.append_nil _).trans queued
      · rw [stored, returned, origin]
        rfl
      · rw [stored, origin]
        exact fun value among => nomatch among
  | provided empty answered =>
      cases answer_eq
      have origin := origin_of_provided empty answered
      rw [Bridge.asked_ask answered, if_neg (Nat.succ_ne_self _), answered] at returned
      refine ⟨?_, ?_, fun _ => empty, ?_⟩
      · rw [stored, origin, left, Bridge.input_ask]
        exact List.append_nil _
      · rw [stored, if_pos origin, returned]
        rfl
      · rw [stored, origin]
        exact fun value among => nomatch among
  | invented empty refused =>
      cases answer_eq
      have origin := origin_of_refused empty refused
      rw [refused, Option.toList_none, ite_self] at returned
      refine ⟨?_, ?_, fun asked => absurd returned asked, ?_⟩
      · rw [stored, origin, left, Bridge.input_ask]
        exact List.append_nil _
      · rw [stored, returned, origin]
        rfl
      · rw [stored, if_pos origin]
        exact fun value among => List.mem_singleton.mp among
  | unasked => cases answer_eq
  | refused _ _ barren => exact absurd answer_eq.symm (barren value)

theorem Unread.keepsInput (unread : Unread m (m.execute source).1 next) :
    (Change.mk m (.executing source) next).KeepsInput := by
  have stored := Change.stored_of_unread unread
  have returned : (Change.mk m (.executing source) next).returned = [] := by
    rw [Change.returned_eq]
    cases unread.asks with
    | idle alone => rw [if_pos alone.asked_eq]
    | once refused => rw [refused, Option.toList_none, ite_self]
  refine ⟨?_, ?_, fun asked => absurd returned asked, ?_⟩
  · rw [stored]
    exact (List.append_nil _).trans unread.input_eq.symm
  · rw [stored, returned]
  · rw [stored]
    exact fun value among => nomatch among

theorem Happens.keepsInput {cause : Cause} (happens : m.Happens cause next) :
    (Change.mk m cause next).KeepsInput := by
  have nothing : ∀ value ∈ ([] : List Word), value = 0 := fun value among => nomatch among
  cases happens with
  | accepting values => exact ⟨rfl, rfl, fun asked => absurd rfl asked, nothing⟩
  | taking | providing | clearing =>
      exact ⟨List.append_nil _, rfl, fun asked => absurd rfl asked, nothing⟩
  | aside kept =>
      refine ⟨?_, rfl, fun asked => absurd rfl asked, nothing⟩
      exact (List.append_nil _).trans kept.input_eq.symm
  | executing source =>
      rcases (m.executes source).reads_or_unread with ⟨value, reads⟩ | unread
      · exact reads.keepsInput
      · exact unread.keepsInput

theorem keepsAnswers_of_asks {answer : Option Word} (asks : m.bridge.Asks next.bridge answer)
    (stored : (Change.mk m (.executing source) next).stored .provider = answer.toList) :
    (Change.mk m (.executing source) next).KeepsAnswers := by
  obtain ⟨split, atMostOne, used⟩ := asks.used
  exact
    { answers := by
        rw [Change.provided, Change.dropped, List.append_nil, List.append_nil]
        exact split
      atMostOne := atMostOne
      used := by
        rw [stored]
        exact used
      alone := nofun }

theorem Happens.keepsAnswers {cause : Cause} (happens : m.Happens cause next) :
    (Change.mk m cause next).KeepsAnswers := by
  cases happens with
  | accepting | taking =>
      exact ⟨List.append_nil _, Nat.zero_le 1, rfl, fun _ => ⟨rfl, rfl⟩⟩
  | aside kept =>
      refine ⟨?_, Nat.zero_le 1, rfl, fun _ => kept.toSameProvider⟩
      exact (List.append_nil _).trans kept.answers_eq.symm
  | providing answers => exact ⟨rfl, Nat.zero_le 1, rfl, nofun⟩
  | clearing => exact ⟨rfl, Nat.zero_le 1, rfl, nofun⟩
  | executing source =>
      rcases (m.executes source).reads_or_unread with ⟨value, reads⟩ | unread
      · refine keepsAnswers_of_asks reads.found.asks ?_
        rw [Change.stored_of_reads reads]
        split <;> rfl
      · exact keepsAnswers_of_asks unread.asks (Change.stored_of_unread unread .provider)

/-- A change that puts nothing out. -/
theorem Change.keepsOutput_of_silent {change : Change} (silent : change.emitted = [])
    (tapes : change.after.bridge.tapes.flatten = change.before.bridge.tapes.flatten)
    (outbox : change.before.bridge.outbox.toList =
      change.taken ++ change.after.bridge.outbox.toList)
    (newest : change.after.lastOutput = change.before.lastOutput) : change.KeepsOutput := by
  refine ⟨?_, ?_, ?_, ?_⟩
  · rw [silent]
    exact fun value among => nomatch among
  · rw [sunk, silent, ite_self, List.append_nil, tapes]
  · rw [unsunk, silent, ite_self, List.append_nil, outbox]
  · rw [silent, newest]
    rfl

theorem keepsOutput_of_emit {value : Word} (emitted : (m.execute source).1 = .ok (.output value))
    (left : next.bridge = m.bridge.emit value) :
    (Change.mk m (.executing source) next).KeepsOutput := by
  have out : (Change.mk m (.executing source) next).emitted = [value] := by
    simp only [Change.emitted, emitted, handedOut]
  refine ⟨?_, ?_, ?_, ?_⟩
  · rw [out, left]
    intro other among
    rw [List.mem_singleton.mp among]
    exact m.bridge.routes_emit value
  · rw [Change.sunk, out, left]
    exact m.bridge.tapes_emit value
  · rw [Change.unsunk, out, left]
    exact (m.bridge.outbox_emit value).symm
  · rw [out]
    exact (congrArg Bridge.lastOutput left).trans (m.bridge.lastOutput_emit value)

theorem Happens.keepsOutput {cause : Cause} (happens : m.Happens cause next) :
    (Change.mk m cause next).KeepsOutput := by
  cases happens with
  | accepting | providing => exact Change.keepsOutput_of_silent rfl rfl rfl rfl
  | taking split => exact Change.keepsOutput_of_silent rfl rfl split rfl
  | clearing =>
      have kept := m.bridge.sameOutput_clearCallbacks
      exact Change.keepsOutput_of_silent rfl kept.tapes_eq rfl rfl
  | aside kept =>
      refine Change.keepsOutput_of_silent rfl kept.tapes_eq ?_ kept.lastOutput_eq
      exact congrArg Array.toList kept.outbox_eq.symm
  | executing source =>
      rcases (m.executes source).emits_or_silent with ⟨value, emitted, left⟩ | ⟨silent, kept⟩
      · exact keepsOutput_of_emit emitted left
      · refine Change.keepsOutput_of_silent silent kept.tapes_eq ?_ kept.lastOutput_eq
        exact congrArg Array.toList kept.outbox_eq.symm

/-! ## What a session accepts, takes and provides -/

/-- The values that an operation puts into the queue. A run of a machine that has halted or failed
ignores its input. -/
def accepts (m : Machine) : Operation → List Word
  | .feed values => values
  | .run _ input => if m.state.isTerminal then [] else input
  | _ => []

/-- The values that an operation takes from the outbox. -/
def takes (m : Machine) : Operation → List Word
  | .takeOutput => m.takeOutput.1.toList
  | .drainOutput => m.drainOutput.1
  | _ => []

/-- The answers of the provider that an operation registers. -/
def provides (_ : Machine) : Operation → List (Option Word)
  | .setProvider answers => answers
  | _ => []

/-- The answers still to come from the provider that an operation drops. -/
def drops (m : Machine) : Operation → List (Option Word)
  | .setProvider _ | .clearCallbacks => m.bridge.answers
  | _ => []

/-- What operations deal with, one operation after the other. One that does not return is the
last. -/
def dealt {α : Type} (deals : Machine → Operation → List α) (fuel : Nat) :
    Machine → List Operation → List α
  | _, [] => []
  | m, operation :: rest =>
      deals m operation ++
        match m.perform fuel operation with
        | none => []
        | some (_, next) => dealt deals fuel next rest

/-- What the change contributes in which an operation accepts, takes, provides or clears. -/
def contributed {α : Type} (part : Change → List α) (m : Machine) : Operation → List α
  | .run _ input => if m.state.isTerminal then [] else part ⟨m, .accepting input, m.feed input⟩
  | .feed values => part ⟨m, .accepting values, m.feed values⟩
  | .takeOutput => part ⟨m, .taking m.takeOutput.1.toList, m.takeOutput.2⟩
  | .drainOutput => part ⟨m, .taking m.drainOutput.1, m.drainOutput.2⟩
  | .setProvider answers => part ⟨m, .providing answers, m.setProvider answers⟩
  | .clearCallbacks => part ⟨m, .clearing, m.clearCallbacks⟩
  | _ => []

section

variable {α : Type} {part : Change → List α}
  (executing : ∀ before source after, part ⟨before, .executing source, after⟩ = [])
  (aside : ∀ before after, part ⟨before, .aside, after⟩ = [])

include executing aside

/-- What neither instructions nor changes that are aside contribute to comes from one change. -/
theorem flatMap_changes (fuel : Nat) (m : Machine) (operation : Operation) :
    (m.changes fuel operation).flatMap part = m.contributed part operation := by
  have turns (suspend : Suspend) (fuel : Nat) (m : Machine) :
      (runChanges suspend fuel m).flatMap part = [] := by
    induction fuel generalizing m with
    | zero => rfl
    | succ fuel ih =>
        rw [runChanges, List.flatMap_cons, executing]
        cases runTurn suspend m with
        | again next => exact ih next
        | done final => simp [aside]
  cases operation with
  | step =>
      cases terminal : m.state.isTerminal <;>
        simp [changes, contributed, terminal, executing, aside]
  | run suspend input =>
      cases terminal : m.state.isTerminal <;> simp only [changes, contributed, terminal,
        Bool.false_eq_true, ↓reduceIte, List.flatMap_cons, List.flatMap_nil, aside, turns,
        List.append_nil]
  | feed | takeOutput | drainOutput | setProvider | clearCallbacks => exact List.append_nil _
  | peek | poke | snapshot | setSink | reset =>
      simp only [changes, contributed, List.flatMap_map, aside, List.flatMap_eq_nil_iff,
        implies_true]

/-- What operations deal with is what their changes contribute to the history. -/
theorem flatMap_history {deals : Machine → Operation → List α}
    (dealing : ∀ m operation, contributed part m operation = deals m operation) (m : Machine)
    (fuel : Nat) (operations : List Operation) :
    (m.history fuel operations).flatMap part = m.dealt deals fuel operations := by
  induction operations generalizing m with
  | nil => rfl
  | cons operation rest ih =>
      rw [history, dealt, List.flatMap_append, flatMap_changes executing aside, dealing]
      cases m.perform fuel operation with
      | none => rfl
      | some went => exact congrArg _ (ih went.2)

end

/-- What is accepted into the queue is what is fed, and the input of runs of live machines. -/
theorem accepted_history (m : Machine) (fuel : Nat) (operations : List Operation) :
    (m.history fuel operations).flatMap (·.accepted) = m.dealt accepts fuel operations := by
  refine flatMap_history (fun _ _ _ => rfl) (fun _ _ => rfl) ?_ m fuel operations
  intro m operation
  cases operation <;> rfl

/-- What is taken from the outbox is what is answered by the operations that take output. -/
theorem taken_history (m : Machine) (fuel : Nat) (operations : List Operation) :
    (m.history fuel operations).flatMap (·.taken) = m.dealt takes fuel operations := by
  refine flatMap_history (fun _ _ _ => rfl) (fun _ _ => rfl) ?_ m fuel operations
  intro m operation
  cases operation with
  | run suspend input => exact ite_self []
  | _ => rfl

/-- What is provided is what the providers will answer that are registered. -/
theorem provided_history (m : Machine) (fuel : Nat) (operations : List Operation) :
    (m.history fuel operations).flatMap (·.provided) = m.dealt provides fuel operations := by
  refine flatMap_history (fun _ _ _ => rfl) (fun _ _ => rfl) ?_ m fuel operations
  intro m operation
  cases operation with
  | run suspend input => exact ite_self []
  | _ => rfl

/-- What is dropped is what was still to come when a provider was replaced or dropped. -/
theorem dropped_history (m : Machine) (fuel : Nat) (operations : List Operation) :
    (m.history fuel operations).flatMap (·.dropped) = m.dealt drops fuel operations := by
  refine flatMap_history (fun _ _ _ => rfl) (fun _ _ => rfl) ?_ m fuel operations
  intro m operation
  cases operation with
  | run suspend input => exact ite_self []
  | _ => rfl

/-! ## What a history keeps -/

/-- A machine that was built or reset just now. -/
inductive JustBegun : Machine → Prop
  | built (program : Program) (config : Config) : JustBegun (ofProgram program config)
  | reset (m : Machine) : JustBegun m.reset

theorem JustBegun.bridge_eq (begun : m.JustBegun) :
    m.bridge.input = [] ∧ m.bridge.outbox = #[] ∧ m.bridge.lastOutput = none := by
  cases begun <;> exact ⟨rfl, rfl, rfl⟩

/-- What has become of the values of a history that began with a machine and came to another. -/
structure Conserves (start : Machine) (past : List Change) (last : Machine) : Prop where
  /-- What was accepted was stored by input instructions, in order, or is queued still. -/
  queue : past.flatMap (·.accepted) = past.flatMap (·.stored .queue) ++ last.bridge.input
  /-- What the provider returned was stored by the instruction that asked it. -/
  provider : ∀ change ∈ past, change.returned = change.stored .provider
  /-- It was asked when nothing was queued. -/
  starved : ∀ change ∈ past, change.returned ≠ [] → change.before.bridge.input = []
  /-- What the provider was to answer was used up by instructions, in order, was dropped with it, or
  is still to come. -/
  answers : start.bridge.answers ++ past.flatMap (·.provided) =
    past.flatMap (fun change => change.used ++ change.dropped) ++ last.bridge.answers
  /-- No instruction used up more than one answer. -/
  atMostOne : ∀ change ∈ past, change.used.length ≤ 1
  /-- The answer was stored by the instruction that used it up, unless it was a refusal. -/
  used : ∀ change ∈ past, change.used.reduceOption = change.stored .provider
  /-- All else that was done left the provider alone. -/
  alone : ∀ change ∈ past, change.cause.concernsProvider = false →
    change.before.bridge.SameProvider change.after.bridge
  /-- What the policy made up was zero, and neither queued nor returned. -/
  invented : ∀ change ∈ past, ∀ value ∈ change.stored .policy, value = 0
  /-- What was put out went to one place. -/
  routed : ∀ change ∈ past, ∀ value ∈ change.emitted,
    change.before.bridge.Routes value change.after.bridge
  /-- On the tapes is what was put out while a sink was registered. -/
  tapes : last.bridge.tapes.flatten = start.bridge.tapes.flatten ++ past.flatMap (·.sunk)
  /-- The rest was taken from the outbox, in order, or is there still. -/
  outbox : past.flatMap (·.unsunk) = past.flatMap (·.taken) ++ last.bridge.outbox.toList
  newest : last.lastOutput = (past.flatMap (·.emitted)).getLast?

theorem Unfolds.newest (unfolds : Unfolds m past last) :
    last.lastOutput = (past.flatMap (·.emitted)).getLast?.or m.lastOutput := by
  induction unfolds with
  | nothing m => rfl
  | change happens _ ih =>
      rw [ih, List.flatMap_cons, List.getLast?_append, happens.keepsOutput.newest, Option.or_assoc]

/-- A history conserves what goes in and out. -/
theorem Unfolds.conserves (unfolds : Unfolds m past last) (begun : m.JustBegun) :
    Conserves m past last := by
  obtain ⟨input, outbox, newest⟩ := begun.bridge_eq
  have keepsInput : ∀ change ∈ past, change.KeepsInput :=
    fun change among => (unfolds.happens change among).keepsInput
  have keepsAnswers : ∀ change ∈ past, change.KeepsAnswers :=
    fun change among => (unfolds.happens change among).keepsAnswers
  have keepsOutput : ∀ change ∈ past, change.KeepsOutput :=
    fun change among => (unfolds.happens change among).keepsOutput
  have queued := unfolds.flow (·.bridge.input) (·.accepted) (·.stored .queue)
    fun change among => (keepsInput change among).queue
  have answered := unfolds.flow (·.bridge.answers) (·.provided)
    (fun change => change.used ++ change.dropped)
    fun change among => (keepsAnswers change among).answers
  have boxed := unfolds.flow (·.bridge.outbox.toList) (·.unsunk) (·.taken)
    fun change among => (keepsOutput change among).outbox
  have heard := unfolds.flow (·.bridge.tapes.flatten) (·.sunk) (fun _ => [])
    fun change among => (keepsOutput change among).tapes.symm
  rw [input] at queued
  rw [outbox] at boxed
  exact
    { queue := queued
      provider := fun change among => (keepsInput change among).provider
      starved := fun change among => (keepsInput change among).starved
      answers := answered
      atMostOne := fun change among => (keepsAnswers change among).atMostOne
      used := fun change among => (keepsAnswers change among).used
      alone := fun change among => (keepsAnswers change among).alone
      invented := fun change among => (keepsInput change among).invented
      routed := fun change among => (keepsOutput change among).routed
      tapes := by rw [heard, List.flatMap_eq_nil_iff.mpr fun _ _ => rfl, List.nil_append]
      outbox := boxed
      newest := by
        rw [unfolds.newest, lastOutput, newest, Option.or_none] }

variable {operations : List Operation}

/-- **Conservation.** Let anything be done to a machine that was built or reset just now. What is
accepted is what is fed and the input of runs of live machines, what is taken is what the operations
that take output answer, and what is provided and dropped are the answers of the providers that are
registered and those still to come from the ones that are replaced or dropped. At each moment of its
history, and when the operations have returned, what was accepted was stored by input instructions
in order or is queued still. What a provider returned was stored by the one instruction that asked
it, when nothing was queued: its answers were used up by instructions in order, were dropped with it
or are still to come, no instruction used up more than one, and nothing else that was done used up
any. What was put out went to the sink that was registered or else to the outbox, from which it was
taken in order or where it is still. Which sinks are registered makes no difference to the
instructions that are executed, to the memory and registers they find, to the values that are put
out or to the machine in the end. -/
theorem values_are_conserved (begun : m.JustBegun) (kept : .reset ∉ operations) (fuel : Nat) :
    (∃ last, Unfolds m (m.history fuel operations) last ∧
      (m.history fuel operations).flatMap (·.accepted) = m.dealt accepts fuel operations ∧
      (m.history fuel operations).flatMap (·.taken) = m.dealt takes fuel operations ∧
      (m.history fuel operations).flatMap (·.provided) = m.dealt provides fuel operations ∧
      (m.history fuel operations).flatMap (·.dropped) = m.dealt drops fuel operations ∧
      (∀ answers final, m.performAll fuel operations = some (answers, final) → final = last) ∧
      ∀ past later, m.history fuel operations = past ++ later →
        ∃ mid, Unfolds m past mid ∧ Unfolds mid later last ∧ Conserves m past mid) ∧
    ∀ (n : Machine) (others : List Operation), n.unrouted = m.unrouted →
      others.filter (· ≠ .setSink) = operations.filter (· ≠ .setSink) →
        n.instructions fuel others = m.instructions fuel operations ∧
        (n.history fuel others).flatMap (·.emitted) =
          (m.history fuel operations).flatMap (·.emitted) ∧
        (n.performAll fuel others).map (·.2.unrouted) =
          (m.performAll fuel operations).map (·.2.unrouted) := by
  constructor
  · obtain ⟨last, unfolds, leaves⟩ := m.unfolds_history fuel kept
    refine ⟨last, unfolds, accepted_history .., taken_history .., provided_history ..,
      dropped_history .., leaves, ?_⟩
    intro past later split
    rw [split] at unfolds
    obtain ⟨mid, first, second⟩ := unfolds.split
    exact ⟨mid, first, second, first.conserves begun⟩
  · intro n others alike same
    obtain ⟨instructions, leaves⟩ := sessions_alike alike same fuel
    refine ⟨instructions, ?_, leaves⟩
    unfold Machine.instructions at instructions
    rw [emitted_eq, instructions, emitted_eq]

/-- A program that reads a word and puts it out, twice. -/
def echoTwice : Program :=
  ⟨[3, 0, 4, 0, 3, 0, 4, 0, 99]⟩

/-- A session in which the first word is queued and boxed, and the second is the answer of a provider
and sunk. -/
def mixedSession : List Operation :=
  [.feed [5], .setProvider [some 7], .run .onOutput [], .setSink, .run .never [], .takeOutput]

theorem echoTwice_conserves :
    (ofProgram echoTwice { scratchCells := 0 }).JustBegun ∧ Operation.reset ∉ mixedSession ∧
    ∃ last,
      Conserves (ofProgram echoTwice { scratchCells := 0 })
        ((ofProgram echoTwice { scratchCells := 0 }).history 3 mixedSession) last ∧
      (last.state, last.bridge.tapes, last.lastOutput) = (.halted, [[7]], some 7) ∧
      ((ofProgram echoTwice { scratchCells := 0 }).history 3 mixedSession).flatMap (·.used) =
        [some 7] ∧
      ((ofProgram echoTwice { scratchCells := 0 }).history 3
        (mixedSession.filter (· ≠ .setSink))).flatMap (·.emitted) = [5, 7] := by
  have begun := JustBegun.built echoTwice { scratchCells := 0 }
  have kept : Operation.reset ∉ mixedSession := by decide
  obtain ⟨⟨last, _, _, _, _, _, leaves, moments⟩, alike⟩ := values_are_conserved begun kept 3
  obtain ⟨mid, _, nothing, conserves⟩ := moments _ [] (List.append_nil _).symm
  cases nothing
  have evaluated : ((ofProgram echoTwice { scratchCells := 0 }).performAll 3 mixedSession).map
      (fun went => (went.2.state, went.2.bridge.tapes, went.2.lastOutput)) =
        some (.halted, [[7]], some 7) := by decide +kernel
  obtain ⟨⟨answers, final⟩, performed, came⟩ := Option.map_eq_some_iff.mp evaluated
  obtain rfl := leaves answers final performed
  have emitted : ((ofProgram echoTwice { scratchCells := 0 }).history 3 mixedSession).flatMap
      (·.emitted) = [5, 7] := by decide +kernel
  refine ⟨begun, kept, final, conserves, came, by decide +kernel, ?_⟩
  exact (alike _ _ rfl (by decide)).2.1.trans emitted

end Machine

end Intcode
