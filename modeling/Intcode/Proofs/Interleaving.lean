/-! # Interleavings of steps that commute

Several actors take steps in some order. Steps of two different actors commute when both can be
taken and neither prevents the other or changes what it does (`Commuting`), up to whatever a view
of the states leaves out. Then one order that comes to a standstill settles all others: any other
order can be continued to a standstill of the same view, with as many steps in all, and every
actor does the same along both (`Commuting.completion`).

An actor's deeds along an order are kept as the list of what its steps show (`deeds`). -/

namespace Intcode

section

variable {State Actor Deed View : Type}
  (step? : State → Actor → Option State) (deed : State → Actor → Deed)

/-- The state after steps of the given actors, if they can take them. -/
def follow : State → List Actor → Option State
  | state, [] => some state
  | state, actor :: rest =>
      match step? state actor with
      | none => none
      | some next => follow next rest

/-- What the steps of one actor show along an order. -/
def deeds [DecidableEq Actor] (who : Actor) : State → List Actor → List Deed
  | _, [] => []
  | state, actor :: rest =>
      (if actor = who then [deed state actor] else []) ++
        match step? state actor with
        | none => []
        | some next => deeds who next rest

/-- Nobody can take a step. -/
def Standstill (state : State) : Prop :=
  ∀ actor, step? state actor = none

/-- Steps of different actors commute, up to what a view leaves out. -/
structure Commuting (view : State → View) : Prop where
  /-- States of one view allow the same steps, which show the same and lead to one view. -/
  alike : ∀ {state other next actor}, view state = view other → step? state actor = some next →
    ∃ after, step? other actor = some after ∧ view next = view after ∧
      deed state actor = deed other actor
  /-- Two steps of different actors can be taken in either order, and the second shows what it
  would have shown at first. -/
  swap : ∀ {state left right first second}, first ≠ second →
    step? state first = some left → step? state second = some right →
    ∃ leftRight rightLeft, step? left second = some leftRight ∧
      step? right first = some rightLeft ∧ view leftRight = view rightLeft ∧
      deed left second = deed state second ∧ deed right first = deed state first

variable {step? deed} {view : State → View} {state other next final : State}
  {actor : Actor} {schedule rest : List Actor}

theorem follow_cons (stepped : step? state actor = some next) (rest : List Actor) :
    follow step? state (actor :: rest) = follow step? next rest := by
  simp only [follow, stepped]

theorem follow_cons_eq_some_iff :
    follow step? state (actor :: rest) = some final ↔
      ∃ next, step? state actor = some next ∧ follow step? next rest = some final := by
  rw [follow]
  cases step? state actor with
  | none => simp
  | some next => simp

theorem follow_append (schedule rest : List Actor) :
    follow step? state (schedule ++ rest) =
      (follow step? state schedule).bind (follow step? · rest) := by
  induction schedule generalizing state with
  | nil => rfl
  | cons first schedule ih =>
      rw [List.cons_append, follow, follow]
      cases step? state first with
      | none => rfl
      | some next => exact ih

theorem follow_concat (schedule : List Actor) (actor : Actor) :
    follow step? state (schedule ++ [actor]) =
      (follow step? state schedule).bind (step? · actor) := by
  rw [follow_append]
  congr 1
  funext last
  rw [follow]
  cases stepped : step? last actor <;> rfl

theorem follow_preserves {P : State → Prop}
    (kept : ∀ {state next actor}, step? state actor = some next → P state → P next)
    (followed : follow step? state schedule = some final) (holds : P state) : P final := by
  induction schedule generalizing state with
  | nil =>
      cases followed
      exact holds
  | cons actor schedule ih =>
      obtain ⟨next, stepped, followed⟩ := follow_cons_eq_some_iff.mp followed
      exact ih followed (kept stepped holds)

theorem deeds_cons [DecidableEq Actor] (stepped : step? state actor = some next) (who : Actor)
    (rest : List Actor) :
    deeds step? deed who state (actor :: rest) =
      (if actor = who then [deed state actor] else []) ++ deeds step? deed who next rest := by
  simp only [deeds, stepped]

theorem Standstill.follow_eq (still : Standstill step? state)
    (followed : follow step? state schedule = some final) : schedule = [] ∧ final = state := by
  cases schedule with
  | nil =>
      cases followed
      exact ⟨rfl, rfl⟩
  | cons actor rest =>
      obtain ⟨next, stepped, _⟩ := follow_cons_eq_some_iff.mp followed
      rw [still actor] at stepped
      cases stepped

/-- The order that takes, again and again, the actor that is picked behind the order so far. -/
def picked (pick : List Actor → Actor) : Nat → List Actor
  | 0 => []
  | length + 1 => picked pick length ++ [pick (picked pick length)]

theorem picked_eq (pick : List Actor → Actor) (length : Nat) :
    picked pick length = (List.range length).map fun position => pick (picked pick position) := by
  induction length with
  | zero => rfl
  | succ length ih => rw [picked, List.range_succ, List.map_append, ← ih, List.map_singleton]

/-- When no order goes on forever, some order comes to a standstill. -/
theorem exists_standstill (bounded : ∀ endless : Nat → Actor, ∃ length,
      follow step? state ((List.range length).map endless) = none) :
    ∃ schedule final, follow step? state schedule = some final ∧ Standstill step? final := by
  refine Classical.byContradiction fun never => ?_
  -- Then behind every order that can be followed somebody can take a step, without end.
  have continues {schedule : List Actor} {final : State}
      (followed : follow step? state schedule = some final) :
      ∃ actor, (step? final actor).isSome = true := by
    refine Classical.byContradiction fun nobody => ?_
    refine never ⟨schedule, final, followed, fun actor => ?_⟩
    cases stepped : step? final actor with
    | none => rfl
    | some next => exact absurd ⟨actor, by rw [stepped]; rfl⟩ nobody
  obtain ⟨someone, _⟩ := @continues [] state rfl
  have further (schedule : List Actor) : ∃ actor, (follow step? state schedule).isSome = true →
      (follow step? state (schedule ++ [actor])).isSome = true := by
    cases followed : follow step? state schedule with
    | none => exact ⟨someone, fun absurd => nomatch absurd⟩
    | some final =>
        obtain ⟨actor, possible⟩ := continues followed
        refine ⟨actor, fun _ => ?_⟩
        rwa [follow_concat, followed]
  obtain ⟨pick, goesOn⟩ := Classical.axiomOfChoice further
  have endless (length : Nat) : (follow step? state (picked pick length)).isSome = true := by
    induction length with
    | zero => rfl
    | succ length ih => exact goesOn _ ih
  obtain ⟨length, stopped⟩ := bounded fun position => pick (picked pick position)
  have reached := endless length
  rw [picked_eq, stopped] at reached
  cases reached

namespace Commuting

variable (commuting : Commuting step? deed view)

include commuting

theorem standstill (same : view state = view other) (still : Standstill step? state) :
    Standstill step? other := by
  intro actor
  cases stepped : step? other actor with
  | none => rfl
  | some next =>
      obtain ⟨after, possible, _⟩ := commuting.alike same.symm stepped
      rw [still actor] at possible
      cases possible

variable [DecidableEq Actor]

/-- States of one view allow the same orders, along which everybody does the same. -/
theorem follow_alike (same : view state = view other)
    (followed : follow step? state schedule = some final) :
    ∃ last, follow step? other schedule = some last ∧ view final = view last ∧
      ∀ who, deeds step? deed who state schedule = deeds step? deed who other schedule := by
  induction schedule generalizing state other with
  | nil =>
      cases followed
      exact ⟨other, rfl, same, fun _ => rfl⟩
  | cons actor schedule ih =>
      obtain ⟨next, stepped, followed⟩ := follow_cons_eq_some_iff.mp followed
      obtain ⟨after, possible, sameAfter, shown⟩ := commuting.alike same stepped
      obtain ⟨last, followedAfter, sameLast, shownAfter⟩ := ih sameAfter followed
      refine ⟨last, ?_, sameLast, ?_⟩
      · rw [follow_cons possible]
        exact followedAfter
      · intro who
        rw [deeds_cons stepped, deeds_cons possible, shown, shownAfter]

/-- A step that can be taken at first can be taken out of an order that comes to a standstill:
the rest of the order, after that step, comes to the same standstill. -/
theorem advance (still : Standstill step? final)
    (followed : follow step? state schedule = some final)
    (stepped : step? state actor = some next) :
    ∃ rest last, follow step? next rest = some last ∧ view last = view final ∧
      rest.length + 1 = schedule.length ∧
      ∀ who, deeds step? deed who state (actor :: rest) = deeds step? deed who state schedule := by
  induction schedule generalizing state next with
  | nil =>
      cases followed
      rw [still actor] at stepped
      cases stepped
  | cons first schedule ih =>
      obtain ⟨middle, firstStepped, followed⟩ := follow_cons_eq_some_iff.mp followed
      by_cases same : actor = first
      · subst same
        rw [stepped] at firstStepped
        cases firstStepped
        exact ⟨schedule, final, followed, rfl, rfl, fun _ => rfl⟩
      · -- The step is exchanged with the first of the order, and taken out of the rest.
        obtain ⟨ahead, behind, aheadStepped, behindStepped, sameView, shownFirst, shownActor⟩ :=
          commuting.swap same stepped firstStepped
        obtain ⟨rest, last, followedRest, sameLast, length, shown⟩ := ih followed behindStepped
        obtain ⟨stop, followedAhead, sameEnd, shownAhead⟩ :=
          commuting.follow_alike sameView.symm followedRest
        refine ⟨first :: rest, stop, ?_, sameEnd.symm.trans sameLast, ?_, ?_⟩
        · rw [follow_cons aheadStepped]
          exact followedAhead
        · rw [List.length_cons, List.length_cons, length]
        · intro who
          rw [deeds_cons stepped, deeds_cons aheadStepped, deeds_cons firstStepped, ← shown who,
            deeds_cons behindStepped, ← shownAhead who, shownFirst, shownActor]
          by_cases here : actor = who
          · have away : ¬first = who := by
              intro there
              exact same (here.trans there.symm)
            simp only [here, away, ↓reduceIte, List.nil_append]
          · simp only [here, ↓reduceIte, List.nil_append]

/-- **Completion.** When one order comes to a standstill, any other can be continued to a
standstill of the same view, taking as many steps in all, and everybody does the same along
both. -/
theorem completion {taken : List Actor} (still : Standstill step? final)
    (followed : follow step? state schedule = some final)
    (other : follow step? state taken = some next) :
    ∃ rest last, follow step? next rest = some last ∧ view last = view final ∧
      taken.length + rest.length = schedule.length ∧
      ∀ who, deeds step? deed who state (taken ++ rest) = deeds step? deed who state schedule := by
  -- By induction on the steps taken: each is taken out of the order that is known to end.
  induction taken generalizing state schedule final with
  | nil =>
      cases other
      exact ⟨schedule, final, followed, rfl, Nat.zero_add _, fun _ => rfl⟩
  | cons actor taken ih =>
      obtain ⟨middle, stepped, other⟩ := follow_cons_eq_some_iff.mp other
      obtain ⟨ahead, stop, followedAhead, sameEnd, length, shown⟩ :=
        commuting.advance still followed stepped
      obtain ⟨rest, last, followedRest, sameLast, lengthRest, shownRest⟩ :=
        ih (commuting.standstill sameEnd.symm still) followedAhead other
      refine ⟨rest, last, followedRest, sameLast.trans sameEnd, ?_, ?_⟩
      · rw [List.length_cons]
        omega
      · intro who
        rw [List.cons_append, deeds_cons stepped, shownRest who, ← deeds_cons stepped, shown who]

theorem standstill_unique {taken : List Actor} (still : Standstill step? final)
    (followed : follow step? state schedule = some final)
    (other : follow step? state taken = some next) (stillNext : Standstill step? next) :
    view next = view final ∧
      ∀ who, deeds step? deed who state taken = deeds step? deed who state schedule := by
  obtain ⟨rest, last, followedRest, sameLast, _, shown⟩ :=
    commuting.completion still followed other
  obtain ⟨rfl, rfl⟩ := stillNext.follow_eq followedRest
  simp only [List.append_nil] at shown
  exact ⟨sameLast, shown⟩

/-- When one order comes to a standstill, none goes on forever. -/
theorem no_endless_order (still : Standstill step? final)
    (followed : follow step? state schedule = some final) (endless : Nat → Actor) :
    ∃ length, follow step? state ((List.range length).map endless) = none := by
  refine ⟨schedule.length + 1, ?_⟩
  cases reached : follow step? state ((List.range (schedule.length + 1)).map endless) with
  | none => rfl
  | some next =>
      obtain ⟨rest, _, _, _, length, _⟩ := commuting.completion still followed reached
      rw [List.length_map, List.length_range] at length
      omega

end Commuting

end

end Intcode
