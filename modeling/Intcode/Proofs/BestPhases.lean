import Intcode.Proofs.Orderings
import Intcode.Proofs.Reseeding

/-! # The search for the best phase settings

The search runs all orders of the candidates one after the other on one chain. As the chain is
reseeded in between, each run is that of a fresh chain (`Chain.Yields`), so the search is a survey
of what fresh chains come to (`Chain.search_returns_iff`). A survey in which no run fails ends with
the highest signal and the first order that yields it (`Chain.Surveys.optimal`), one with a failure
ends at the first (`Chain.surveys_error_iff`). -/

namespace Intcode

namespace Chain

/-- What the run of a fresh chain over phase settings comes to, on the signal zero. -/
def Yields (program : Program) (feedback : Bool) (phases : List Word)
    (result : Except Error Word) : Prop :=
  ∃ fuel chain after, ofPhases program phases = .ok chain ∧
    chain.runFromZero fuel feedback = some (result, after)

/-- The error of a search without orders. -/
def noCandidates : Error :=
  (Error.invalidArgument "no phase candidates").inOperation "chain::best_phases"

/-- What a search comes to that has found a best signal so far, or none yet, and has some orders
before it. -/
inductive Surveys (program : Program) (feedback : Bool) : Option (Word × List Word) →
    List (List Word) → Except Error (Word × List Word) → Prop
  | nothing : Surveys program feedback none [] (.error noCandidates)
  | done (best : Word × List Word) : Surveys program feedback (some best) [] (.ok best)
  | failed {best : Option (Word × List Word)} {phases : List Word} {rest : List (List Word)}
      {error : Error} (yields : Yields program feedback phases (.error error)) :
      Surveys program feedback best (phases :: rest) (.error error)
  | further {best : Option (Word × List Word)} {phases : List Word} {rest : List (List Word)}
      {signal : Word} {answer : Except Error (Word × List Word)}
      (yields : Yields program feedback phases (.ok signal))
      (surveys : Surveys program feedback (some (better best signal phases)) rest answer) :
      Surveys program feedback best (phases :: rest) answer

variable {program : Program} {feedback : Bool} {phases : List Word} {orders : List (List Word)}
  {best : Option (Word × List Word)} {answer : Except Error (Word × List Word)} {chain : Chain}
  {signal : Word} {fuel : Nat}

theorem Yields.unique {result other : Except Error Word}
    (yields : Yields program feedback phases result)
    (again : Yields program feedback phases other) : result = other := by
  obtain ⟨fuel, chain, after, built, returned⟩ := yields
  obtain ⟨enough, same, stop, builtAgain, returnedAgain⟩ := again
  rw [built] at builtAgain
  cases builtAgain
  have first := runFromZero_add returned enough
  have second := runFromZero_add returnedAgain fuel
  rw [Nat.add_comm, second] at first
  cases first
  rfl

/-! ## Searching is surveying -/

theorem search_cons (fuel : Nat) (feedback : Bool) (best : Option (Word × List Word))
    (phases : List Word) (rest : List (List Word)) (chain : Chain) :
    search fuel feedback best (phases :: rest) chain =
      match chain.reseed phases with
      | .error error => some (.error error)
      | .ok chain =>
          match chain.runFromZero fuel feedback with
          | none => none
          | some (.error error, _) => some (.error error)
          | some (.ok signal, chain) =>
              search fuel feedback (some (better best signal phases)) rest chain := by
  cases best <;> rfl

theorem search_add (found : search fuel feedback best orders chain = some answer) (more : Nat) :
    search (fuel + more) feedback best orders chain = some answer := by
  induction orders generalizing best chain with
  | nil => cases best <;> exact found
  | cons phases rest ih =>
      rw [search_cons] at found ⊢
      split at found
      · exact found
      · split at found
        · cases found
        · rename_i returned
          rw [runFromZero_add returned more]
          exact found
        · rename_i returned
          rw [runFromZero_add returned more]
          exact ih found

theorem surveys_of_search {size : Nat} (positive : 0 < size)
    (descends : chain.DescendsFrom program Config.strict size)
    (sizes : ∀ phases ∈ orders, phases.length = size)
    (found : search fuel feedback best orders chain = some answer) :
    Surveys program feedback best orders answer := by
  induction orders generalizing best chain with
  | nil =>
      cases best with
      | none =>
          cases found
          exact .nothing
      | some best =>
          cases found
          exact .done best
  | cons phases rest ih =>
      obtain ⟨here, others⟩ := List.forall_mem_cons.mp sizes
      obtain ⟨fresh, built, reseeded, descendsFresh⟩ := descends.exists_fresh positive here
      rw [search_cons, reseeded] at found
      dsimp only at found
      split at found
      · cases found
      · rename_i error after returned
        cases found
        exact .failed ⟨fuel, fresh, after, built, returned⟩
      · rename_i signal after returned
        exact .further ⟨fuel, fresh, after, built, returned⟩
          (ih (descendsFresh.runFromZero returned) others found)

theorem exists_search_of_surveys {size : Nat} (positive : 0 < size)
    (descends : chain.DescendsFrom program Config.strict size)
    (sizes : ∀ phases ∈ orders, phases.length = size)
    (surveys : Surveys program feedback best orders answer) :
    ∃ fuel, search fuel feedback best orders chain = some answer := by
  induction surveys generalizing chain with
  | nothing => exact ⟨0, rfl⟩
  | done best => exact ⟨0, rfl⟩
  | @failed best phases rest error yields =>
      obtain ⟨here, _⟩ := List.forall_mem_cons.mp sizes
      obtain ⟨fresh, built, reseeded, _⟩ := descends.exists_fresh positive here
      obtain ⟨fuel, chain, after, same, returned⟩ := yields
      rw [built] at same
      cases same
      refine ⟨fuel, ?_⟩
      rw [search_cons, reseeded]
      dsimp only
      rw [returned]
  | @further best phases rest signal answer yields surveys ih =>
      obtain ⟨here, others⟩ := List.forall_mem_cons.mp sizes
      obtain ⟨fresh, built, reseeded, descendsFresh⟩ := descends.exists_fresh positive here
      obtain ⟨fuel, chain, after, same, returned⟩ := yields
      rw [built] at same
      cases same
      obtain ⟨enough, found⟩ := ih (descendsFresh.runFromZero returned) others
      -- The fuel of this run and that of the rest suffice for both.
      refine ⟨fuel + enough, ?_⟩
      rw [search_cons, reseeded]
      dsimp only
      rw [runFromZero_add returned enough]
      dsimp only
      rw [Nat.add_comm]
      exact search_add found fuel

/-- **Searching is surveying.** A search that is given enough fuel comes to what the fresh chains
over the orders come to, whatever its chain went through before. -/
theorem search_returns_iff {size : Nat} (positive : 0 < size)
    (descends : chain.DescendsFrom program Config.strict size)
    (sizes : ∀ phases ∈ orders, phases.length = size) :
    (∃ fuel, search fuel feedback best orders chain = some answer) ↔
      Surveys program feedback best orders answer := by
  constructor
  · rintro ⟨fuel, found⟩
    exact surveys_of_search positive descends sizes found
  · exact exists_search_of_surveys positive descends sizes

/-! ## Surveys -/

/-- The first of some orders over which a fresh chain yields a signal. -/
def FirstYields (program : Program) (feedback : Bool) (signal : Word) (orders : List (List Word))
    (phases : List Word) : Prop :=
  Yields program feedback phases (.ok signal) ∧ ∃ before after, orders = before ++ phases :: after ∧
    ∀ order ∈ before, ¬Yields program feedback order (.ok signal)

theorem FirstYields.here (yields : Yields program feedback phases (.ok signal)) :
    FirstYields program feedback signal (phases :: orders) phases := by
  refine ⟨yields, [], orders, rfl, ?_⟩
  intro order absurd
  exact (List.not_mem_nil absurd).elim

theorem FirstYields.behind {order : List Word} {other : Word}
    (first : FirstYields program feedback signal orders phases)
    (yields : Yields program feedback order (.ok other)) (less : other < signal) :
    FirstYields program feedback signal (order :: orders) phases := by
  obtain ⟨best, before, after, rfl, none⟩ := first
  have lower : ¬Yields program feedback order (.ok signal) := by
    intro again
    cases yields.unique again
    exact Int64.ne_of_lt less rfl
  exact ⟨best, order :: before, after, rfl, List.forall_mem_cons.mpr ⟨lower, none⟩⟩

/-- What the first order of a survey, or the best before it, is up against: in the end it is the
best, or a later order is strictly better and is the first to yield its signal. -/
theorem Surveys.from_best {top : Word} {earlier : List Word}
    (surveys : Surveys program feedback (some (top, earlier)) orders (.ok (signal, phases))) :
    (∀ order ∈ orders, ∃ other, Yields program feedback order (.ok other) ∧ other ≤ signal) ∧
      ((signal, phases) = (top, earlier) ∨
        top < signal ∧ FirstYields program feedback signal orders phases) := by
  induction orders generalizing top earlier with
  | nil =>
      cases surveys
      refine ⟨?_, .inl rfl⟩
      intro order absurd
      exact (List.not_mem_nil absurd).elim
  | cons order rest ih =>
      cases surveys with
      | @further _ _ _ other _ yields surveys =>
          unfold better at surveys
          dsimp only at surveys
          split at surveys
          · rename_i higher
            rcases ih surveys with ⟨bounded, same | ⟨less, first⟩⟩
            · cases same
              exact ⟨List.forall_mem_cons.mpr ⟨⟨_, yields, Int64.le_rfl⟩, bounded⟩,
                .inr ⟨higher, .here yields⟩⟩
            · exact ⟨List.forall_mem_cons.mpr ⟨⟨_, yields, Int64.le_of_lt less⟩, bounded⟩,
                .inr ⟨Int64.lt_trans higher less, first.behind yields less⟩⟩
          · rename_i lower
            -- A draw is no improvement, so an order that yields the same stays behind the best.
            have atMost : other ≤ top := Int64.not_lt.mp lower
            rcases ih surveys with ⟨bounded, same | ⟨less, first⟩⟩
            · cases same
              exact ⟨List.forall_mem_cons.mpr ⟨⟨_, yields, atMost⟩, bounded⟩, .inl rfl⟩
            · have under : other < signal := Int64.lt_of_le_of_lt atMost less
              exact ⟨List.forall_mem_cons.mpr ⟨⟨_, yields, Int64.le_of_lt under⟩, bounded⟩,
                .inr ⟨less, first.behind yields under⟩⟩

/-- **The optimum.** A survey without failure ends with the highest signal and the first order that
yields it. -/
theorem Surveys.optimal (surveys : Surveys program feedback none orders (.ok (signal, phases))) :
    (∀ order ∈ orders, ∃ other, Yields program feedback order (.ok other) ∧ other ≤ signal) ∧
      FirstYields program feedback signal orders phases := by
  cases surveys with
  | further yields surveys =>
      rcases surveys.from_best with ⟨bounded, same | ⟨less, first⟩⟩
      · cases same
        exact ⟨List.forall_mem_cons.mpr ⟨⟨_, yields, Int64.le_rfl⟩, bounded⟩, .here yields⟩
      · exact ⟨List.forall_mem_cons.mpr ⟨⟨_, yields, Int64.le_of_lt less⟩, bounded⟩,
          first.behind yields less⟩

theorem exists_surveys (going : best.isSome = true ∨ orders ≠ [])
    (fine : ∀ order ∈ orders, ∃ signal, Yields program feedback order (.ok signal)) :
    ∃ signal phases, Surveys program feedback best orders (.ok (signal, phases)) := by
  induction orders generalizing best with
  | nil =>
      cases best with
      | none => cases going <;> contradiction
      | some best => exact ⟨best.1, best.2, .done best⟩
  | cons order rest ih =>
      obtain ⟨⟨other, yields⟩, others⟩ := List.forall_mem_cons.mp fine
      obtain ⟨signal, phases, surveys⟩ := @ih (some (better best other order)) (.inl rfl) others
      exact ⟨signal, phases, .further yields surveys⟩

/-- **The first failure.** A survey fails with the error of the first order that fails, if there
are orders. -/
theorem surveys_error_iff {error : Error} (going : best.isSome = true ∨ orders ≠ []) :
    Surveys program feedback best orders (.error error) ↔
      ∃ before order after, orders = before ++ order :: after ∧
        (∀ earlier ∈ before, ∃ signal, Yields program feedback earlier (.ok signal)) ∧
        Yields program feedback order (.error error) := by
  induction orders generalizing best with
  | nil =>
      constructor
      · intro surveys
        cases surveys
        cases going <;> contradiction
      · rintro ⟨before, order, after, absurd, _⟩
        cases before <;> cases absurd
  | cons order rest ih =>
      constructor
      · intro surveys
        cases surveys with
        | failed yields =>
            exact ⟨[], order, rest, rfl, fun _ absurd => (List.not_mem_nil absurd).elim, yields⟩
        | further yields surveys =>
            obtain ⟨before, failing, after, rfl, fine, failed⟩ := (ih (.inl rfl)).mp surveys
            exact ⟨order :: before, failing, after, rfl,
              List.forall_mem_cons.mpr ⟨⟨_, yields⟩, fine⟩, failed⟩
      · rintro ⟨before, failing, after, split, fine, failed⟩
        cases before with
        | nil =>
            cases split
            exact .failed failed
        | cons first before =>
            cases split
            obtain ⟨⟨signal, yields⟩, fine⟩ := List.forall_mem_cons.mp fine
            exact .further yields ((ih (.inl rfl)).mpr ⟨before, failing, after, rfl, fine, failed⟩)

/-! ## The best phases -/

variable {candidates : List Word}

/-- The search for the best phases surveys all orders of the candidates, if there are any. -/
theorem bestPhases_returns_iff (nonempty : candidates ≠ []) :
    (∃ fuel, bestPhases fuel program candidates feedback = some answer) ↔
      Surveys program feedback none (orderings candidates) answer := by
  have sizes : ∀ phases ∈ orderings candidates, phases.length = candidates.length := by
    intro phases among
    exact (mem_orderings_iff.mp among).length_eq
  cases built : ofPhases program candidates with
  | error error =>
      cases candidates with
      | nil => exact absurd rfl nonempty
      | cons candidate rest => cases built
  | ok chain =>
      unfold bestPhases
      simp only [built]
      exact search_returns_iff (List.length_pos_iff.mpr nonempty) (descendsFrom_ofPhases built)
        sizes

theorem bestPhases_nil (fuel : Nat) (program : Program) (feedback : Bool) :
    bestPhases fuel program [] feedback = some (.error (noPhases "chain::new")) :=
  rfl

theorem bestPhases_signal_iff (nonempty : candidates ≠ []) :
    (∃ fuel signal phases,
        bestPhases fuel program candidates feedback = some (.ok (signal, phases))) ↔
      ∀ order, order.Perm candidates → ∃ signal, Yields program feedback order (.ok signal) := by
  constructor
  · rintro ⟨fuel, signal, phases, returned⟩ order perm
    have surveys := (bestPhases_returns_iff nonempty).mp ⟨fuel, returned⟩
    obtain ⟨other, yields, _⟩ := surveys.optimal.1 order (mem_orderings_iff.mpr perm)
    exact ⟨other, yields⟩
  · intro fine
    have all : ∀ order ∈ orderings candidates,
        ∃ signal, Yields program feedback order (.ok signal) := by
      intro order among
      exact fine order (mem_orderings_iff.mp among)
    obtain ⟨signal, phases, surveys⟩ :=
      @exists_surveys program feedback _ none (.inr (orderings_ne_nil candidates)) all
    obtain ⟨fuel, returned⟩ := (bestPhases_returns_iff nonempty).mpr surveys
    exact ⟨fuel, signal, phases, returned⟩

theorem bestPhases_firstYields (nonempty : candidates ≠ [])
    (returned : bestPhases fuel program candidates feedback = some (.ok (signal, phases))) :
    phases.Perm candidates ∧ FirstYields program feedback signal (orderings candidates) phases ∧
      ∀ order other, order.Perm candidates → Yields program feedback order (.ok other) →
        other ≤ signal := by
  obtain ⟨bounded, first⟩ := ((bestPhases_returns_iff nonempty).mp ⟨fuel, returned⟩).optimal
  have among : phases ∈ orderings candidates := by
    obtain ⟨_, before, after, split, _⟩ := first
    rw [split]
    exact List.mem_append_right before List.mem_cons_self
  refine ⟨mem_orderings_iff.mp among, first, ?_⟩
  intro order other perm again
  obtain ⟨same, once, most⟩ := bounded order (mem_orderings_iff.mpr perm)
  cases once.unique again
  exact most

theorem bestPhases_error_iff {error : Error} (nonempty : candidates ≠ []) :
    (∃ fuel, bestPhases fuel program candidates feedback = some (.error error)) ↔
      ∃ before order after, orderings candidates = before ++ order :: after ∧
        (∀ earlier ∈ before, ∃ signal, Yields program feedback earlier (.ok signal)) ∧
        Yields program feedback order (.error error) := by
  rw [bestPhases_returns_iff nonempty, surveys_error_iff (.inr (orderings_ne_nil candidates))]

/-- **The best phases.** The search returns a signal exactly when there are candidates and a fresh
chain returns a signal for each of their orders. Then the phases are an order of the candidates,
a fresh chain over them yields that signal and over no order a higher one, and they are the first
of the orders, as these are enumerated, that yield it. The search returns an error when there are
no candidates, or when a fresh chain fails for some order while it returns signals for all before
it; then the error is that of this order. -/
theorem bestPhases_optimal (program : Program) (candidates : List Word) (feedback : Bool) :
    ((∃ fuel signal phases,
        bestPhases fuel program candidates feedback = some (.ok (signal, phases))) ↔
      candidates ≠ [] ∧ ∀ order, order.Perm candidates →
        ∃ signal, Yields program feedback order (.ok signal)) ∧
    (∀ fuel signal phases,
      bestPhases fuel program candidates feedback = some (.ok (signal, phases)) →
      phases.Perm candidates ∧ Yields program feedback phases (.ok signal) ∧
      (∀ order other, order.Perm candidates → Yields program feedback order (.ok other) →
        other ≤ signal) ∧
      ∃ before after, orderings candidates = before ++ phases :: after ∧
        ∀ order ∈ before, ¬Yields program feedback order (.ok signal)) ∧
    ∀ error, (∃ fuel, bestPhases fuel program candidates feedback = some (.error error)) ↔
      candidates = [] ∧ error = noPhases "chain::new" ∨
      candidates ≠ [] ∧ ∃ before order after, orderings candidates = before ++ order :: after ∧
        (∀ earlier ∈ before, ∃ signal, Yields program feedback earlier (.ok signal)) ∧
        Yields program feedback order (.error error) := by
  by_cases empty : candidates = []
  · subst empty
    refine ⟨⟨?_, ?_⟩, ?_, ?_⟩
    · rintro ⟨fuel, signal, phases, returned⟩
      cases returned
    · rintro ⟨absurd, _⟩
      exact (absurd rfl).elim
    · intro fuel signal phases returned
      cases returned
    · intro error
      constructor
      · rintro ⟨fuel, returned⟩
        cases returned
        exact .inl ⟨rfl, rfl⟩
      · rintro (⟨_, rfl⟩ | ⟨absurd, _⟩)
        · exact ⟨0, bestPhases_nil 0 program feedback⟩
        · exact (absurd rfl).elim
  · refine ⟨?_, ?_, ?_⟩
    · rw [bestPhases_signal_iff empty]
      exact ⟨fun fine => ⟨empty, fine⟩, And.right⟩
    · intro fuel signal phases returned
      obtain ⟨perm, ⟨yields, first⟩, highest⟩ := bestPhases_firstYields empty returned
      exact ⟨perm, yields, highest, first⟩
    · intro error
      rw [bestPhases_error_iff empty]
      constructor
      · intro found
        exact .inr ⟨empty, found⟩
      · rintro (⟨absurd, _⟩ | ⟨_, found⟩)
        · exact (empty absurd).elim
        · exact found

end Chain

end Intcode
