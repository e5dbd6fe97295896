import Intcode.Proofs.Enumeration
import Mathlib.Logic.Equiv.Basic
import Mathlib.Logic.Function.Iterate

/-! # All orders of a list

Running through the positions below a position over and over, with an exchange in between, brings
every element to that position once (`Orderings.exists_opening`). So by induction the arrangements
that are visited are all there are: a list is among the orders exactly when it is a permutation
(`mem_orderings_iff`).

Which element comes next depends on how the positions below are left behind each time. Running
through an odd number of positions exchanges the first and the last; running through an even
number leaves them as `Orderings.net` says. Both are found by following where each element comes
from, round by round: an even number of positions is left as the exchanges of `Orderings.walk` leave
it, and for an odd number a round is a cycle through all positions (`Orderings.orbit`), of which one
more exchange would be needed to come back to the beginning. -/

namespace Intcode

namespace Orderings

open Equiv

/-! ## Where elements come from -/

/-- Where the element at a position comes from, once all positions up to `top` have been run
through. -/
def net (top position : Nat) : Nat :=
  if top % 2 = 0 then swap 0 top position
  else if position = top then 0
  else if position + 1 = top then top
  else if position = 0 then top - 2
  else if position = 1 then top - 1
  else if position < top then position - 1
  else position

/-- Where the element at a position comes from behind the exchange with the position `count`, when
an even number `top + 2` of positions is run through. -/
def walk (top count position : Nat) : Nat :=
  if position = top + 1 then (if count = 0 then top else if count = top then 0 else count)
  else if position = 0 then (if count % 2 = 0 then top + 1 else 0)
  else if position = top then
    (if count = top then top - 1 else if count % 2 = 0 then 0 else top + 1)
  else if position ≤ count then (if position = 1 then top else position - 1)
  else position

/-- Where the element at a position comes from in a round, when an odd number `top + 2` of positions
is run through. -/
def whirl (top position : Nat) : Nat :=
  net top (swap 0 (top + 1) position)

/-- The position from which the top element comes behind `count` rounds of a whirl. -/
def orbit (top count : Nat) : Nat :=
  if count = 0 then top + 1
  else if count + 1 < top then top - 1 - count
  else if count = top + 1 then 0
  else count

section Arithmetic

variable {top count : Nat}

theorem net_of_even (even : top % 2 = 0) (position : Nat) :
    net top position = swap 0 top position :=
  if_pos even

theorem net_of_lt {position : Nat} (above : top < position) : net top position = position := by
  unfold net
  simp only [swap_apply_def]
  grind

theorem walk_zero (even : top % 2 = 0) (position : Nat) :
    net top (swap 0 (top + 1) position) = walk top 0 position := by
  rw [net_of_even even]
  simp only [swap_apply_def]
  unfold walk
  grind

theorem walk_succ (even : top % 2 = 0) (more : count < top) (position : Nat) :
    walk top count (net top (swap (count + 1) (top + 1) position)) =
      walk top (count + 1) position := by
  rw [net_of_even even]
  simp only [swap_apply_def]
  unfold walk
  grind

theorem walk_net (even : top % 2 = 0) (position : Nat) :
    walk top top (net top position) = net (top + 1) position := by
  rw [net_of_even even]
  unfold net
  simp only [swap_apply_def]
  unfold walk
  grind

theorem exists_walk_top {position : Nat} (below : position ≤ top) :
    ∃ count ≤ top, walk top count (top + 1) = position := by
  by_cases first : position = 0
  · exact ⟨top, Nat.le_refl _, by unfold walk; grind⟩
  · by_cases last : position = top
    · exact ⟨0, Nat.zero_le _, by unfold walk; grind⟩
    · exact ⟨position, below, by unfold walk; grind⟩

theorem whirl_orbit (odd : top % 2 = 1) (few : count ≤ top) :
    whirl top (orbit top count) = orbit top (count + 1) := by
  unfold whirl net orbit
  simp only [swap_apply_def]
  grind

theorem iterate_whirl_top (odd : top % 2 = 1) (few : count ≤ top + 1) :
    Nat.iterate (whirl top) count (top + 1) = orbit top count := by
  induction count with
  | zero => rfl
  | succ count ih =>
      rw [Function.iterate_succ_apply', ih (by omega)]
      exact whirl_orbit odd (by omega)

theorem exists_orbit (odd : top % 2 = 1) {position : Nat} (inside : position ≤ top + 1) :
    ∃ count ≤ top + 1, orbit top count = position := by
  by_cases start : position = top + 1
  · exact ⟨0, Nat.zero_le _, by unfold orbit; grind⟩
  · by_cases stop : position = 0
    · exact ⟨top + 1, Nat.le_refl _, by unfold orbit; grind⟩
    · by_cases inner : position + 1 < top
      · exact ⟨top - 1 - position, by omega, by unfold orbit; grind⟩
      · exact ⟨position, by omega, by unfold orbit; grind⟩

/-- A whirl of one more round than there are brings every element back. -/
theorem iterate_whirl_all (odd : top % 2 = 1) (position : Nat) :
    Nat.iterate (whirl top) (top + 2) position = position := by
  by_cases inside : position ≤ top + 1
  · obtain ⟨count, few, rfl⟩ := exists_orbit odd inside
    have back : Nat.iterate (whirl top) (top + 2) (top + 1) = top + 1 := by
      rw [Function.iterate_succ_apply', iterate_whirl_top odd (Nat.le_refl _)]
      unfold whirl net orbit
      simp only [swap_apply_def]
      grind
    rw [← iterate_whirl_top odd few, ← Function.iterate_add_apply, Nat.add_comm,
      Function.iterate_add_apply, back]
  · apply Function.iterate_fixed
    rw [whirl, swap_apply_of_ne_of_ne (by omega) (by omega)]
    exact net_of_lt (by omega)

theorem whirl_net (odd : top % 2 = 1) (position : Nat) :
    Nat.iterate (whirl top) (top + 1) (net top position) = net (top + 1) position := by
  have even : (top + 1) % 2 = 0 := by omega
  have once : net top position = whirl top (swap 0 (top + 1) position) := by
    rw [whirl, swap_apply_self]
  rw [net_of_even even, once, ← Function.iterate_succ_apply, iterate_whirl_all odd]

/-- Where the element at a position comes from behind `count` exchanges with the position
`top + 1`. -/
def source (top count position : Nat) : Nat :=
  if top % 2 = 1 then Nat.iterate (whirl top) count position
  else
    match count with
    | 0 => position
    | count + 1 => walk top count position

theorem source_zero (top position : Nat) : source top 0 position = position := by
  unfold source
  split <;> rfl

theorem source_succ (few : count ≤ top) (position : Nat) :
    source top count (net top (swap (partner (top + 1) count) (top + 1) position)) =
      source top (count + 1) position := by
  unfold source partner
  by_cases odd : top % 2 = 1
  · have even : (top + 1) % 2 = 0 := by omega
    simp only [odd, even, ↓reduceIte]
    rfl
  · have even : top % 2 = 0 := by omega
    have oddNext : ¬(top + 1) % 2 = 0 := by omega
    simp only [odd, oddNext, ↓reduceIte]
    cases count with
    | zero => exact walk_zero even position
    | succ count => exact walk_succ even few position

theorem source_net (top position : Nat) :
    source top (top + 1) (net top position) = net (top + 1) position := by
  unfold source
  by_cases odd : top % 2 = 1
  · simp only [odd, ↓reduceIte]
    exact whirl_net odd position
  · simp only [odd, ↓reduceIte]
    exact walk_net (by omega) position

theorem exists_source_top {position : Nat} (inside : position ≤ top + 1) :
    ∃ count ≤ top + 1, source top count (top + 1) = position := by
  unfold source
  by_cases odd : top % 2 = 1
  · obtain ⟨count, few, reached⟩ := exists_orbit odd inside
    refine ⟨count, few, ?_⟩
    rw [if_pos odd, iterate_whirl_top odd few, reached]
  · by_cases start : position = top + 1
    · exact ⟨0, Nat.zero_le _, by rw [if_neg odd, start]⟩
    · obtain ⟨count, few, reached⟩ := @exists_walk_top top position (by omega)
      exact ⟨count + 1, by omega, by rw [if_neg odd]; exact reached⟩

theorem source_of_lt {position : Nat} (few : count ≤ top + 1) (above : top + 1 < position) :
    source top count position = position := by
  induction count with
  | zero => exact source_zero top position
  | succ count ih =>
      have elsewhere : partner (top + 1) count ≠ position := by
        unfold partner
        split <;> omega
      rw [← source_succ (by omega), swap_apply_of_ne_of_ne elsewhere.symm (by omega),
        net_of_lt (by omega)]
      exact ih (by omega)

end Arithmetic

/-! ## Arrangements -/

section Arrangements

variable {α : Type} {arrangement other : Array α} {top count position : Nat}

theorem getElem?_swapIfInBounds {first second : Nat} (insideFirst : first < arrangement.size)
    (insideSecond : second < arrangement.size) (position : Nat) :
    (arrangement.swapIfInBounds first second)[position]? =
      arrangement[swap first second position]? := by
  rw [Array.swapIfInBounds_def, dif_pos insideFirst, dif_pos insideSecond, Array.getElem?_swap]
  by_cases atSecond : second = position
  · subst atSecond
    rw [if_pos rfl, swap_apply_right, Array.getElem?_eq_getElem insideFirst]
  · by_cases atFirst : first = position
    · subst atFirst
      rw [if_neg atSecond, if_pos rfl, swap_apply_left, Array.getElem?_eq_getElem insideSecond]
    · rw [if_neg atSecond, if_neg atFirst,
        swap_apply_of_ne_of_ne (Ne.symm atFirst) (Ne.symm atSecond)]

theorem perm_swapIfInBounds (arrangement : Array α) (first second : Nat) :
    (arrangement.swapIfInBounds first second).Perm arrangement := by
  rw [Array.swapIfInBounds_def]
  split
  · split
    · exact Array.swap_perm _ _
    · exact .rfl
  · exact .rfl

/-- The arrangement from which the positions below `top` are run through, once the element at `top`
was exchanged `count` times. -/
def opening (below : Array α → List (Array α) × Array α) (top : Nat) (arrangement : Array α) :
    (count : Nat) → Array α
  | 0 => arrangement
  | count + 1 =>
      (below (opening below top arrangement count)).2.swapIfInBounds (partner top count) top

/-- The exchanges that remain go through the openings that remain. -/
theorem exchangeRounds_eq (below : Array α → List (Array α) × Array α) (top : Nat)
    (arrangement : Array α) {remaining : Nat} (few : remaining ≤ top) :
    exchangeRounds below top remaining (below (opening below top arrangement (top - remaining))).2 =
      ((List.range' (top - remaining + 1) remaining).flatMap fun count =>
          (below (opening below top arrangement count)).1,
        (below (opening below top arrangement top)).2) := by
  induction remaining with
  | zero => rfl
  | succ remaining ih =>
      have next : top - remaining = top - (remaining + 1) + 1 := by omega
      have opened : (below (opening below top arrangement (top - (remaining + 1)))).2.swapIfInBounds
          (partner top (top - (remaining + 1))) top =
            opening below top arrangement (top - remaining) := by
        rw [next]
        rfl
      have rest := ih (by omega)
      unfold exchangeRounds
      dsimp only
      rw [opened, rest, List.range'_succ, List.flatMap_cons, ← next]

/-- Running through the positions up to `top + 1` is running through those up to `top` from every
opening. -/
theorem upTo_succ (top : Nat) (arrangement : Array α) :
    upTo (top + 1) arrangement =
      ((List.range (top + 2)).flatMap fun count =>
          (upTo top (opening (upTo top) (top + 1) arrangement count)).1,
        (upTo top (opening (upTo top) (top + 1) arrangement (top + 1))).2) := by
  have rounds := exchangeRounds_eq (upTo top) (top + 1) arrangement (Nat.le_refl _)
  rw [Nat.sub_self] at rounds
  have first : upTo (top + 1) arrangement =
      ((upTo top arrangement).1 ++
          (exchangeRounds (upTo top) (top + 1) (top + 1) (upTo top arrangement).2).1,
        (exchangeRounds (upTo top) (top + 1) (top + 1) (upTo top arrangement).2).2) := rfl
  have start : opening (upTo top) (top + 1) arrangement 0 = arrangement := rfl
  have all : List.range (top + 2) = 0 :: List.range' (0 + 1) (top + 1) := by
    rw [List.range_eq_range', List.range'_succ]
  rw [start] at rounds
  rw [first, rounds, all, List.flatMap_cons, start]

theorem perm_opening {below : Array α → List (Array α) × Array α}
    (kept : ∀ arrangement, (below arrangement).2.Perm arrangement) (top : Nat)
    (arrangement : Array α) (count : Nat) :
    (opening below top arrangement count).Perm arrangement := by
  induction count with
  | zero => exact .rfl
  | succ count ih => exact (perm_swapIfInBounds _ _ _).trans ((kept _).trans ih)

/-- Running through positions visits arrangements of the same elements and ends at one. -/
theorem perm_upTo (top : Nat) (arrangement : Array α) :
    (∀ visited ∈ (upTo top arrangement).1, visited.Perm arrangement) ∧
      (upTo top arrangement).2.Perm arrangement := by
  induction top generalizing arrangement with
  | zero =>
      refine ⟨?_, .rfl⟩
      intro visited among
      rw [List.mem_singleton.mp among]
  | succ top ih =>
      have opened := perm_opening (fun arrangement => (ih arrangement).2) (top + 1) arrangement
      rw [upTo_succ]
      refine ⟨?_, (ih _).2.trans (opened _)⟩
      intro visited among
      obtain ⟨count, _, among⟩ := List.mem_flatMap.mp among
      exact ((ih _).1 visited among).trans (opened count)

theorem size_opening (top : Nat) (arrangement : Array α) (count : Nat) :
    (opening (upTo top) (top + 1) arrangement count).size = arrangement.size :=
  (perm_opening (fun arrangement => (perm_upTo top arrangement).2) _ _ _).size_eq

/-- Where the elements of an opening come from, when it is known for the positions below. -/
theorem getElem?_opening
    (ended : ∀ (arrangement : Array α), top < arrangement.size → ∀ position : Nat,
      (upTo top arrangement).2[position]? = arrangement[net top position]?)
    (inside : top + 1 < arrangement.size) (few : count ≤ top + 1) (position : Nat) :
    (opening (upTo top) (top + 1) arrangement count)[position]? =
      arrangement[source top count position]? := by
  induction count generalizing position with
  | zero => rw [source_zero, opening]
  | succ count ih =>
      have size := size_opening top arrangement count
      have sizeEnd : (upTo top (opening (upTo top) (top + 1) arrangement count)).2.size =
          arrangement.size := (perm_upTo top _).2.size_eq.trans size
      have partnerInside : partner (top + 1) count < arrangement.size := by
        unfold partner
        split <;> omega
      rw [opening, getElem?_swapIfInBounds (by omega) (by omega), ended _ (by omega),
        ih (by omega), source_succ (by omega)]

/-- Where elements come from, once all positions up to `top` have been run through. -/
theorem getElem?_upTo (inside : top < arrangement.size) (position : Nat) :
    (upTo top arrangement).2[position]? = arrangement[net top position]? := by
  induction top generalizing arrangement position with
  | zero =>
      rw [net_of_even rfl, swap_self, refl_apply, upTo]
  | succ top ih =>
      have size := size_opening top arrangement (top + 1)
      rw [upTo_succ, ih (by omega),
        getElem?_opening (fun _ => ih) inside (Nat.le_refl _), source_net]

/-- **Every element comes to the top.** For every element there is an opening with that element at
the top, in which nothing above has changed. -/
theorem exists_opening (inside : top + 1 < arrangement.size) (below : position ≤ top + 1) :
    ∃ count < top + 2,
      (opening (upTo top) (top + 1) arrangement count)[top + 1]? = arrangement[position]? ∧
      ∀ above, top + 1 < above →
        (opening (upTo top) (top + 1) arrangement count)[above]? = arrangement[above]? := by
  have opened (count : Nat) (few : count ≤ top + 1) (position : Nat) :=
    getElem?_opening (fun _ size => getElem?_upTo size) inside few position
  obtain ⟨count, few, reached⟩ := exists_source_top below
  refine ⟨count, by omega, ?_, ?_⟩
  · rw [opened count few, reached]
  · intro above higher
    rw [opened count few, source_of_lt few higher]

/-- The element at the top of a rearrangement is one of those that were rearranged. -/
theorem exists_getElem?_eq (inside : top < arrangement.size) (perm : other.Perm arrangement)
    (above : ∀ position, top < position → other[position]? = arrangement[position]?) :
    ∃ position ≤ top, arrangement[position]? = other[top]? := by
  have rest : other.toList.drop (top + 1) = arrangement.toList.drop (top + 1) := by
    apply List.ext_getElem?
    intro position
    rw [List.getElem?_drop, List.getElem?_drop, Array.getElem?_toList, Array.getElem?_toList]
    exact above _ (by omega)
  have lower : (other.toList.take (top + 1)).Perm (arrangement.toList.take (top + 1)) := by
    have whole := perm.toList
    rw [← List.take_append_drop (top + 1) other.toList,
      ← List.take_append_drop (top + 1) arrangement.toList, rest] at whole
    exact (List.perm_append_right_iff _).mp whole
  have insideOther : top < other.size := by rwa [perm.size_eq]
  have among : other[top] ∈ other.toList.take (top + 1) := by
    refine List.mem_iff_getElem?.mpr ⟨top, ?_⟩
    rw [List.getElem?_take_of_lt (Nat.lt_succ_self top), Array.getElem?_toList,
      Array.getElem?_eq_getElem insideOther]
  obtain ⟨position, found⟩ := List.mem_iff_getElem?.mp (lower.mem_iff.mp among)
  have near : position < top + 1 := by
    by_cases near : position < top + 1
    · exact near
    · rw [List.getElem?_take_eq_none (Nat.le_of_not_lt near)] at found
      cases found
  refine ⟨position, Nat.le_of_lt_succ near, ?_⟩
  rw [List.getElem?_take_of_lt near, Array.getElem?_toList] at found
  rw [found, Array.getElem?_eq_getElem insideOther]

/-- **Nothing is left out.** Every arrangement of the same elements is visited, if it differs at the
positions up to `top` only. -/
theorem mem_upTo (inside : top < arrangement.size) (perm : other.Perm arrangement)
    (above : ∀ position, top < position → other[position]? = arrangement[position]?) :
    other ∈ (upTo top arrangement).1 := by
  induction top generalizing arrangement with
  | zero =>
      obtain ⟨position, first, found⟩ := exists_getElem?_eq inside perm above
      apply List.mem_singleton.mpr
      apply Array.ext_getElem?
      intro here
      by_cases start : here = 0
      · rw [start, ← found, Nat.le_zero.mp first]
      · exact above here (Nat.pos_of_ne_zero start)
  | succ top ih =>
      obtain ⟨position, below, found⟩ := exists_getElem?_eq inside perm above
      obtain ⟨count, few, atTop, aboveTop⟩ := exists_opening inside below
      have size := size_opening top arrangement count
      have opened := perm_opening (fun arrangement => (perm_upTo top arrangement).2) (top + 1)
        arrangement count
      rw [upTo_succ]
      refine List.mem_flatMap.mpr ⟨count, List.mem_range.mpr few, ?_⟩
      apply ih (by omega) (perm.trans opened.symm)
      intro position higher
      by_cases here : position = top + 1
      · rw [here, atTop, found]
      · rw [aboveTop position (by omega), above position (by omega)]

end Arrangements

end Orderings

/-- **All orders.** The orders of a list are its permutations. -/
theorem mem_orderings_iff {α : Type} {items order : List α} :
    order ∈ orderings items ↔ order.Perm items := by
  rw [orderings_eq]
  constructor
  · intro among
    obtain ⟨visited, seen, rfl⟩ := List.mem_map.mp among
    exact ((Orderings.perm_upTo _ _).1 visited seen).toList
  · intro perm
    refine List.mem_map.mpr ⟨order.toArray, ?_, rfl⟩
    cases items with
    | nil => rw [perm.eq_nil]; exact List.mem_singleton.mpr rfl
    | cons first rest =>
        apply Orderings.mem_upTo (Nat.lt_succ_self _) perm.toArray
        intro position higher
        have outside : (first :: rest).length ≤ position := by
          rw [List.length_cons]
          omega
        rw [List.getElem?_toArray, List.getElem?_toArray, List.getElem?_eq_none outside,
          List.getElem?_eq_none (by rw [perm.length_eq]; exact outside)]

theorem orderings_ne_nil {α : Type} (items : List α) : orderings items ≠ [] :=
  List.ne_nil_of_mem (mem_orderings_iff.mpr (List.Perm.refl items))

example : orderings [1, 2, 3] =
    [[1, 2, 3], [2, 1, 3], [3, 1, 2], [1, 3, 2], [2, 3, 1], [3, 2, 1]] := by
  cbv

end Intcode
