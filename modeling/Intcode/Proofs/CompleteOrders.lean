import Intcode.Proofs.Orderings
import Mathlib.Data.List.Chain
import Mathlib.Data.List.FinRange
import Mathlib.Data.List.Permutation

/-! # Every order of a list, once

The loop exchanges two elements before it visits another arrangement and visits none otherwise, so
of the arrangements in its row each differs from the one before by one exchange
(`Orderings.Enumeration.exists_visit_eq`). The recursion behind the loop says how many there are
(`Orderings.length_orderings`), and since none is left out, none comes twice where the elements can
be told apart. Elements that are equal are told apart by their positions: what the loop does with
elements it does with their positions, for it never looks at them (`Orderings.orderings_map`). -/

namespace Intcode

namespace Orderings

variable {α β : Type}

/-- Two places of a list have each other's elements afterwards, and all others have kept theirs. -/
def Exchanged (before after : List α) : Prop :=
  ∃ first second, first < second ∧ second < before.length ∧
    ∀ position : Nat, after[position]? = before[Equiv.swap first second position]?

theorem partner_lt {top count : Nat} (few : count < top) : partner top count < top := by
  unfold partner
  split <;> omega

/-! ## One exchange after the other -/

namespace Enumeration

theorem exchanged_exchange (standing : Enumeration α)
    (inside : standing.position < standing.current.size)
    (more : counterAt standing.counters standing.position < standing.position) :
    Exchanged standing.current.toList (standing.exchange inside more).current.toList := by
  have lower := partner_lt more
  refine ⟨_, standing.position, lower, inside, fun position => ?_⟩
  rw [Array.getElem?_toList, Array.getElem?_toList]
  exact getElem?_swapIfInBounds (Nat.lt_trans lower inside) inside position

/-- **One exchange for each.** The loop only appends to what was visited, and each arrangement it
appends comes from the one before by an exchange. -/
theorem exists_visit_eq (standing : Enumeration α) (visited : Array (Array α)) :
    ∃ further : List (Array α), standing.visit visited = visited ++ further.toArray ∧
      ((standing.current :: further).map Array.toList).IsChain Exchanged := by
  fun_induction visit standing visited with
  | case1 standing visited inside more ih =>
      obtain ⟨further, visits, chain⟩ := ih
      refine ⟨(standing.exchange inside more).current :: further, ?_, ?_⟩
      · rw [visits, ← Array.append_singleton, Array.append_assoc]
        exact congrArg (visited ++ ·) (List.append_toArray [_] further)
      · exact List.isChain_cons_cons.mpr ⟨standing.exchanged_exchange inside more, chain⟩
  | case2 standing visited inside all ih => exact ih
  | case3 standing visited passed => exact ⟨[], Array.append_empty.symm, .singleton _⟩

end Enumeration

theorem exists_orderings_eq (items : List α) :
    ∃ further, orderings items = items :: further ∧ (items :: further).IsChain Exchanged := by
  obtain ⟨further, visits, chain⟩ :=
    (Enumeration.start items.toArray).exists_visit_eq #[items.toArray]
  refine ⟨further.map Array.toList, ?_, chain⟩
  rw [orderings, visits, Array.toList_append]
  rfl

/-! ## How many there are -/

theorem length_upTo (top : Nat) (arrangement : Array α) :
    (upTo top arrangement).1.length = (top + 1).factorial := by
  induction top generalizing arrangement with
  | zero => rfl
  | succ top ih =>
      rw [upTo_succ, List.length_flatMap]
      simp only [ih, List.map_const', List.sum_replicate_nat, List.length_range,
        Nat.factorial_succ (top + 1)]

theorem length_orderings (items : List α) :
    (orderings items).length = items.length.factorial := by
  rw [orderings_eq, List.length_map, length_upTo]
  cases items with
  | nil => rfl
  | cons first rest => rfl

/-! ## Positions in place of elements -/

theorem swapIfInBounds_map (f : α → β) (arrangement : Array α) (first second : Nat) :
    (arrangement.map f).swapIfInBounds first second =
      (arrangement.swapIfInBounds first second).map f := by
  simp only [Array.swapIfInBounds_def, Array.size_map]
  split
  · split
    · apply Array.ext_getElem?
      intro position
      simp only [Array.getElem?_swap, Array.getElem?_map, Array.getElem_map]
      split
      · rfl
      · split <;> rfl
    · rfl
  · rfl

/-- What the recursion does with the images of elements it does with the elements. -/
def Natural (f : α → β) (top : Nat) : Prop :=
  ∀ arrangement : Array α, upTo top (arrangement.map f) =
    ((upTo top arrangement).1.map (Array.map f), (upTo top arrangement).2.map f)

theorem Natural.opening {f : α → β} {top : Nat} (natural : Natural f top) (arrangement : Array α)
    (count : Nat) :
    opening (upTo top) (top + 1) (arrangement.map f) count =
      (opening (upTo top) (top + 1) arrangement count).map f := by
  induction count with
  | zero => rfl
  | succ count ih => rw [Orderings.opening, ih, natural, swapIfInBounds_map, Orderings.opening]

theorem natural (f : α → β) (top : Nat) : Natural f top := by
  induction top with
  | zero => exact fun _ => rfl
  | succ top ih =>
      intro arrangement
      rw [upTo_succ, upTo_succ, ih.opening, ih, List.map_flatMap]
      simp only [ih.opening, ih _]

theorem orderings_map (f : α → β) (items : List α) :
    orderings (items.map f) = (orderings items).map (List.map f) := by
  rw [orderings_eq, orderings_eq, List.length_map, ← List.map_toArray, natural, List.map_map,
    List.map_map]
  exact List.map_congr_left fun arrangement _ => Array.toList_map

/-- The orders of the positions of a list, with its elements put in. -/
theorem orderings_eq_map (items : List α) :
    orderings items = (orderings (List.finRange items.length)).map (List.map items.get) := by
  rw [← orderings_map, List.map_get_finRange]

/-! ## Each once -/

/-- Elements that can be told apart have all their permutations among the orders, and there are as
many orders as permutations. -/
theorem orderings_perm_of_nodup {items : List α} (distinct : items.Nodup) :
    (orderings items).Perm items.permutations := by
  have included : items.permutations ⊆ orderings items := by
    intro order among
    exact mem_orderings_iff.mpr (List.mem_permutations.mp among)
  have subperm := List.subperm_of_subset (List.nodup_permutations items distinct) included
  refine (subperm.perm_of_length_le ?_).symm
  rw [length_orderings, List.length_permutations]

theorem orderings_perm (items : List α) : (orderings items).Perm items.permutations := by
  have positions := orderings_perm_of_nodup (List.nodup_finRange items.length)
  have images := positions.map (List.map items.get)
  rwa [← orderings_eq_map, List.map_permutations, List.map_get_finRange] at images

end Orderings

open Orderings in
/-- **All orders, each once.** The enumeration comes to its end for every list. What it gives are
the orders of the list's positions, all `n!` of them and each once, with the elements put in; so
they are the permutations of the list, and none comes twice just when no element does. The first
is the list itself, and each of the others comes from the one before by exchanging the elements at
two positions. -/
theorem orders_are_complete {α : Type} (items : List α) :
    (orderings (List.finRange items.length)).Perm (List.finRange items.length).permutations ∧
    (orderings (List.finRange items.length)).Nodup ∧
    orderings items = (orderings (List.finRange items.length)).map (List.map items.get) ∧
    (orderings items).length = items.length.factorial ∧
    (∀ order, order ∈ orderings items ↔ order.Perm items) ∧
    ((orderings items).Nodup ↔ items.Nodup) ∧
    (orderings items).head? = some items ∧
    (orderings items).IsChain Exchanged := by
  have positions := List.nodup_finRange items.length
  obtain ⟨further, split, chain⟩ := exists_orderings_eq items
  refine ⟨orderings_perm _, ?_, orderings_eq_map items, length_orderings items,
    fun order => mem_orderings_iff, ?_, ?_, ?_⟩
  · exact (orderings_perm _).nodup_iff.mpr (List.nodup_permutations _ positions)
  · rw [(orderings_perm items).nodup_iff, List.nodup_permutations_iff]
  · rw [split]
    rfl
  · rwa [split]

/-- Two equal elements change places like any others. -/
example : orderings [7, 7, 8] =
    [[7, 7, 8], [7, 7, 8], [8, 7, 7], [7, 8, 7], [7, 8, 7], [8, 7, 7]] := by
  cbv

end Intcode
