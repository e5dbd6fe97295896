import Intcode.Chain.Orderings

/-! # The enumeration of orders, nested

The loop that enumerates the orders of a list keeps its place in counters. Between two turns of a
position it runs through all positions below, so what it visits is what a recursion over the
positions visits (`Orderings.upTo`), and the loop ends (`orderings_eq`). -/

namespace Intcode

namespace Orderings

variable {α : Type}

/-- Runs through the positions below `top` once more for each exchange that remains, by means of
an enumeration of the positions below. -/
def exchangeRounds (below : Array α → List (Array α) × Array α) (top : Nat) :
    (remaining : Nat) → Array α → List (Array α) × Array α
  | 0, arrangement => ([], arrangement)
  | remaining + 1, arrangement =>
      let (visited, last) :=
        below (arrangement.swapIfInBounds (partner top (top - (remaining + 1))) top)
      let (others, final) := exchangeRounds below top remaining last
      (visited ++ others, final)

/-- The arrangements reached by permuting the positions up to `top`, beginning with the given
one, and the last of them. -/
def upTo : (top : Nat) → Array α → List (Array α) × Array α
  | 0, arrangement => ([arrangement], arrangement)
  | top + 1, arrangement =>
      let (visited, last) := upTo top arrangement
      let (others, final) := exchangeRounds (upTo top) (top + 1) (top + 1) last
      (visited ++ others, final)

theorem upTo_cons (top : Nat) (arrangement : Array α) :
    (upTo top arrangement).1 = arrangement :: (upTo top arrangement).1.tail := by
  induction top with
  | zero => rfl
  | succ top ih =>
      have first : (upTo (top + 1) arrangement).1 = (upTo top arrangement).1 ++
          (exchangeRounds (upTo top) (top + 1) (top + 1) (upTo top arrangement).2).1 := rfl
      rw [first, ih]
      rfl

theorem setIfInBounds_zero {counters : Array Nat} {position : Nat}
    (zero : counterAt counters position = 0) : counters.setIfInBounds position 0 = counters := by
  apply Array.ext_getElem?
  intro other
  rw [Array.getElem?_setIfInBounds]
  by_cases same : position = other
  · subst same
    rw [if_pos rfl]
    cases found : counters[position]? with
    | none => rw [if_neg (Nat.not_lt.mpr (Array.getElem?_eq_none_iff.mp found))]
    | some count =>
        rw [counterAt, found] at zero
        cases zero
        rw [if_pos (Array.getElem?_eq_some_iff.mp found).1]
  · rw [if_neg same]

namespace Enumeration

variable {standing next last : Enumeration α} {seen more : List (Array α)} {top : Nat}

/-- From one place the loop comes to another, with some arrangements visited on the way. -/
def Visits (standing : Enumeration α) (seen : List (Array α)) (next : Enumeration α) : Prop :=
  ∀ visited, standing.visit visited = next.visit (visited ++ seen.toArray)

theorem Visits.trans (first : standing.Visits seen next) (second : next.Visits more last) :
    standing.Visits (seen ++ more) last := by
  intro visited
  rw [first, second, ← List.append_toArray, Array.append_assoc]

theorem visits_exchange (inside : standing.position < standing.current.size)
    (more : counterAt standing.counters standing.position < standing.position) :
    standing.Visits [(standing.exchange inside more).current] (standing.exchange inside more) := by
  intro visited
  rw [visit, dif_pos inside, dif_pos more]
  rfl

theorem visits_pass (inside : standing.position < standing.current.size)
    (all : ¬counterAt standing.counters standing.position < standing.position) :
    standing.Visits [] (standing.pass inside) := by
  intro visited
  rw [visit, dif_pos inside, dif_neg all]
  rfl

/-- The loop runs through the positions up to `top` as the recursion does. -/
def Nested (α : Type) (top : Nat) : Prop :=
  ∀ standing : Enumeration α, standing.position = 1 → top < standing.current.size →
    (∀ lower ≤ top, counterAt standing.counters lower = 0) →
    ∃ next : Enumeration α, next.position = top + 1 ∧ next.counters = standing.counters ∧
      next.current = (upTo top standing.current).2 ∧
      standing.Visits (upTo top standing.current).1.tail next

theorem size_exchange (inside : standing.position < standing.current.size)
    (more : counterAt standing.counters standing.position < standing.position) :
    (standing.exchange inside more).current.size = standing.current.size :=
  Array.size_swapIfInBounds

/-- **One round.** After an exchange the positions below are run through, and it is the same
position's turn again. -/
theorem Nested.round (nested : Nested α top) (turn : standing.position = top + 1)
    (inside : top + 1 < standing.current.size)
    (more : counterAt standing.counters (top + 1) < top + 1) :
    ∃ next : Enumeration α, ∃ swapped, next.position = top + 1 ∧
      swapped = standing.current.swapIfInBounds
        (partner (top + 1) (counterAt standing.counters (top + 1))) (top + 1) ∧
      next.counters = standing.counters.setIfInBounds (top + 1)
        (counterAt standing.counters (top + 1) + 1) ∧
      next.current = (upTo top swapped).2 ∧ standing.Visits (upTo top swapped).1 next := by
  have here : standing.position < standing.current.size := by rwa [turn]
  have counted : top + 1 < standing.counters.size := by rwa [standing.size_eq]
  have again : counterAt standing.counters standing.position < standing.position := by rwa [turn]
  have swapped : (standing.exchange here again).current = standing.current.swapIfInBounds
      (partner (top + 1) (counterAt standing.counters (top + 1))) (top + 1) := by
    dsimp only [exchange]
    rw [turn]
  have counters : (standing.exchange here again).counters =
      standing.counters.setIfInBounds (top + 1) (counterAt standing.counters (top + 1) + 1) := by
    dsimp only [exchange]
    rw [turn]
  have room : top < (standing.exchange here again).current.size := by
    rw [size_exchange]
    omega
  have fresh : ∀ lower ≤ top, counterAt (standing.exchange here again).counters lower = 0 := by
    intro lower below
    rw [counters, counterAt_set counted, if_neg (by omega)]
    exact standing.passed lower (by omega)
  obtain ⟨next, turnNext, countersNext, currentNext, visits⟩ :=
    nested (standing.exchange here again) rfl room fresh
  refine ⟨next, (standing.exchange here again).current, turnNext, swapped, ?_, currentNext, ?_⟩
  · rw [countersNext, counters]
  · rw [upTo_cons]
    exact (visits_exchange here again).trans visits

/-- When a position is exchanged until it is passed, the positions below are run through as often
as the recursion does. -/
theorem Nested.rounds (nested : Nested α top) {remaining : Nat}
    (turn : standing.position = top + 1) (inside : top + 1 < standing.current.size)
    (few : counterAt standing.counters (top + 1) + remaining = top + 1) :
    ∃ next : Enumeration α, next.position = top + 2 ∧
      next.counters = standing.counters.setIfInBounds (top + 1) 0 ∧
      next.current = (exchangeRounds (upTo top) (top + 1) remaining standing.current).2 ∧
      standing.Visits (exchangeRounds (upTo top) (top + 1) remaining standing.current).1 next := by
  have counted : top + 1 < standing.counters.size := by rwa [standing.size_eq]
  -- By induction on the exchanges that the position has still to make.
  induction remaining generalizing standing with
  | zero =>
      have here : standing.position < standing.current.size := by rwa [turn]
      have all : ¬counterAt standing.counters standing.position < standing.position := by
        rw [turn]
        omega
      refine ⟨standing.pass here, ?_, ?_, rfl, visits_pass here all⟩
      · dsimp only [pass]
        rw [turn]
      · dsimp only [pass]
        rw [turn]
  | succ remaining ih =>
      obtain ⟨mid, swapped, turnMid, same, countersMid, currentMid, visitsMid⟩ :=
        nested.round turn inside (by omega)
      have counter : counterAt mid.counters (top + 1) =
          counterAt standing.counters (top + 1) + 1 := by
        rw [countersMid, counterAt_set counted, if_pos rfl]
      have countedMid : top + 1 < mid.counters.size := by
        rwa [countersMid, Array.size_setIfInBounds]
      have insideMid : top + 1 < mid.current.size := by rwa [← mid.size_eq]
      obtain ⟨next, turnNext, countersNext, currentNext, visitsNext⟩ :=
        ih turnMid insideMid (by omega) countedMid
      have count : top + 1 - (remaining + 1) = counterAt standing.counters (top + 1) := by omega
      have unfolded : exchangeRounds (upTo top) (top + 1) (remaining + 1) standing.current =
          ((upTo top swapped).1 ++ (exchangeRounds (upTo top) (top + 1) remaining mid.current).1,
            (exchangeRounds (upTo top) (top + 1) remaining mid.current).2) := by
        rw [currentMid, same, ← count]
        rfl
      rw [unfolded]
      refine ⟨next, turnNext, ?_, currentNext, visitsMid.trans visitsNext⟩
      rw [countersNext, countersMid, Array.setIfInBounds_setIfInBounds]

/-- **The loop is nested.** It runs through the positions as the recursion does. -/
theorem nested (top : Nat) : Nested α top := by
  induction top with
  | zero =>
      intro standing start inside fresh
      refine ⟨standing, start, rfl, rfl, ?_⟩
      intro visited
      exact congrArg standing.visit (Array.append_empty).symm
  | succ top ih =>
      intro standing start inside fresh
      obtain ⟨mid, turnMid, countersMid, currentMid, visitsMid⟩ :=
        ih standing start (by omega) fun lower below => fresh lower (by omega)
      have zero : counterAt mid.counters (top + 1) = 0 := by
        rw [countersMid]
        exact fresh (top + 1) (Nat.le_refl _)
      have sizeMid : mid.current.size = standing.current.size := by
        rw [← mid.size_eq, countersMid, standing.size_eq]
      obtain ⟨next, turnNext, countersNext, currentNext, visitsNext⟩ :=
        ih.rounds turnMid (by omega) (by rw [zero, Nat.zero_add])
      refine ⟨next, turnNext, ?_, ?_, ?_⟩
      · rw [countersNext, countersMid]
        exact setIfInBounds_zero (fresh (top + 1) (Nat.le_refl _))
      · rw [currentNext, currentMid]
        rfl
      · have seen : (upTo (top + 1) standing.current).1.tail =
            (upTo top standing.current).1.tail ++
              (exchangeRounds (upTo top) (top + 1) (top + 1) mid.current).1 := by
          have whole : (upTo (top + 1) standing.current).1 = (upTo top standing.current).1 ++
              (exchangeRounds (upTo top) (top + 1) (top + 1) mid.current).1 := by
            rw [currentMid]
            rfl
          rw [whole, upTo_cons top standing.current]
          rfl
        rw [seen]
        exact visitsMid.trans visitsNext

theorem visit_of_passed (all : standing.current.size ≤ standing.position)
    (visited : Array (Array α)) : standing.visit visited = visited := by
  rw [visit, dif_neg (Nat.not_lt.mpr all)]

end Enumeration

end Orderings

open Orderings Enumeration in
/-- **The enumeration ends** with the arrangements that the recursion visits. -/
theorem orderings_eq {α : Type} (items : List α) :
    orderings items = (upTo (items.length - 1) items.toArray).1.map Array.toList := by
  unfold orderings
  by_cases empty : items.length = 0
  · rw [visit_of_passed (by show items.length ≤ 1; omega), empty]
    rfl
  · have inside : items.length - 1 < (start items.toArray).current.size := by
      show items.length - 1 < items.length
      omega
    obtain ⟨last, turn, counters, _, visits⟩ := nested (items.length - 1) (start items.toArray)
      rfl inside fun _ _ => counterAt_replicate _ _
    have size : last.current.size = items.length := by
      rw [← last.size_eq, counters, Enumeration.size_eq]
      rfl
    have seen : (upTo (items.length - 1) items.toArray).1 =
        items.toArray :: (upTo (items.length - 1) items.toArray).1.tail := upTo_cons _ _
    rw [visits, visit_of_passed (by omega), seen, Array.toList_append]
    rfl

end Intcode
