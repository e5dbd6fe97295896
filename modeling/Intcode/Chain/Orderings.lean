import Intcode.Chain.Basic

/-! # The best order of phase settings

The orders of a list are enumerated such that each differs from the one before by one exchange. A
counter for each position says how often its element was exchanged for one below; the positions
below are run through anew behind every exchange, with their counters back at zero. At an even
position the exchange always takes the first element, at an odd one it walks along.

The search tries every order on a freshly seeded chain and keeps the first that gives the highest
signal (`Chain.bestPhases`). -/

namespace Intcode

namespace Orderings

/-- The position whose element is exchanged for the one at `top` the next time, when it was
exchanged `count` times. -/
def partner (top count : Nat) : Nat :=
  if top % 2 = 0 then 0 else count

def counterAt (counters : Array Nat) (position : Nat) : Nat :=
  counters[position]?.getD 0

/-- Where an enumeration stands. Every position has a counter, and those of the positions that
have been passed are at zero. -/
structure Enumeration (α : Type) where
  current : Array α
  counters : Array Nat
  position : Nat
  size_eq : counters.size = current.size
  passed : ∀ lower < position, counterAt counters lower = 0

theorem counterAt_set {counters : Array Nat} {position : Nat} (inside : position < counters.size)
    (count other : Nat) :
    counterAt (counters.setIfInBounds position count) other =
      if position = other then count else counterAt counters other := by
  unfold counterAt
  rw [Array.getElem?_setIfInBounds, if_pos inside]
  split <;> rfl

theorem counterAt_replicate (size position : Nat) :
    counterAt (Array.replicate size 0) position = 0 := by
  unfold counterAt
  rw [Array.getElem?_replicate]
  split <;> rfl

namespace Enumeration

variable {α : Type}

/-- An enumeration from a given arrangement on. -/
def start (arrangement : Array α) : Enumeration α where
  current := arrangement
  counters := Array.replicate arrangement.size 0
  position := 1
  size_eq := Array.size_replicate
  passed _ _ := counterAt_replicate _ _

/-- The element whose turn it is goes to the place of another, and the positions below are run
through anew. -/
def exchange (standing : Enumeration α) (inside : standing.position < standing.current.size)
    (more : counterAt standing.counters standing.position < standing.position) :
    Enumeration α where
  current := standing.current.swapIfInBounds
    (partner standing.position (counterAt standing.counters standing.position)) standing.position
  counters := standing.counters.setIfInBounds standing.position
    (counterAt standing.counters standing.position + 1)
  position := 1
  size_eq := by rw [Array.size_setIfInBounds, Array.size_swapIfInBounds, standing.size_eq]
  passed lower first := by
    rw [counterAt_set (by rwa [standing.size_eq]), if_neg (by omega)]
    exact standing.passed lower (by omega)

/-- The position whose turn it is has been exchanged with all: it is passed. -/
def pass (standing : Enumeration α) (inside : standing.position < standing.current.size) :
    Enumeration α where
  current := standing.current
  counters := standing.counters.setIfInBounds standing.position 0
  position := standing.position + 1
  size_eq := by rw [Array.size_setIfInBounds, standing.size_eq]
  passed lower below := by
    rw [counterAt_set (by rwa [standing.size_eq])]
    split
    · rfl
    · exact standing.passed lower (by omega)

/-- How many exchanges it takes to run through the positions below one. -/
def exchangesBelow : (top : Nat) → Nat
  | 0 => 0
  | top + 1 => exchangesBelow top + top * (exchangesBelow top + 1)

/-- How many exchanges remain among the first positions, of which those below `position` have been
passed. -/
def exchangesLeft (counters : Array Nat) (position : Nat) : (size : Nat) → Nat
  | 0 => 0
  | top + 1 =>
      exchangesLeft counters position top +
        if top < position then 0 else (top - counterAt counters top) * (exchangesBelow top + 1)

theorem exchangesLeft_passed (counters : Array Nat) {position size : Nat}
    (all : size ≤ position) : exchangesLeft counters position size = 0 := by
  induction size with
  | zero => rfl
  | succ top ih => rw [exchangesLeft, ih (by omega), if_pos (by omega)]

theorem exchangesLeft_zero {counters : Array Nat} {size : Nat}
    (zero : ∀ lower < size, counterAt counters lower = 0) :
    exchangesLeft counters 1 size = exchangesBelow size := by
  induction size with
  | zero => rfl
  | succ top ih =>
      rw [exchangesLeft, exchangesBelow, ih fun lower below => zero lower (by omega),
        zero top (by omega)]
      split
      · rename_i first
        rw [Nat.lt_one_iff.mp first, Nat.zero_mul]
      · rw [Nat.sub_zero]

/-- An exchange leaves one exchange less. -/
theorem exchangesLeft_exchange (standing : Enumeration α)
    (inside : standing.position < standing.current.size)
    (more : counterAt standing.counters standing.position < standing.position)
    {size : Nat} (enough : standing.position < size) :
    exchangesLeft (standing.exchange inside more).counters 1 size + 1 =
      exchangesLeft standing.counters standing.position size := by
  have counted : standing.position < standing.counters.size := by rwa [standing.size_eq]
  have counter := counterAt_set counted (counterAt standing.counters standing.position + 1)
  induction size with
  | zero => cases enough
  | succ top ih =>
      rw [exchangesLeft, exchangesLeft, exchange, counter, if_neg (by omega)]
      by_cases here : standing.position = top
      · subst here
        have fresh : ∀ lower < standing.position,
            counterAt (standing.exchange inside more).counters lower = 0 := by
          intro lower below
          rw [exchange, counter, if_neg (by omega)]
          exact standing.passed lower below
        have split : standing.position - counterAt standing.counters standing.position =
            standing.position - (counterAt standing.counters standing.position + 1) + 1 := by
          omega
        rw [exchange] at fresh
        rw [exchangesLeft_zero fresh, exchangesLeft_passed _ (Nat.le_refl _), if_pos rfl,
          if_neg (Nat.lt_irrefl _), split, Nat.succ_mul]
        omega
      · have lower := ih (by omega)
        rw [exchange] at lower
        rw [if_neg here, if_neg (by omega), ← lower]
        omega

/-- Passing a position leaves as many exchanges. -/
theorem exchangesLeft_pass (standing : Enumeration α)
    (inside : standing.position < standing.current.size)
    (all : ¬counterAt standing.counters standing.position < standing.position) (size : Nat) :
    exchangesLeft (standing.pass inside).counters (standing.position + 1) size =
      exchangesLeft standing.counters standing.position size := by
  induction size with
  | zero => rfl
  | succ top ih =>
      rw [exchangesLeft, exchangesLeft, ih, pass, counterAt_set (by rwa [standing.size_eq])]
      by_cases here : standing.position = top
      · subst here
        rw [if_pos (Nat.lt_succ_self _), if_neg (Nat.lt_irrefl _),
          Nat.sub_eq_zero_of_le (Nat.not_lt.mp all), Nat.zero_mul]
      · have same : top < standing.position + 1 ↔ top < standing.position := by omega
        simp only [same, here, ↓reduceIte]

/-- Runs through the arrangements that remain and appends them to those visited. -/
def visit (standing : Enumeration α) (visited : Array (Array α)) : Array (Array α) :=
  if inside : standing.position < standing.current.size then
    if more : counterAt standing.counters standing.position < standing.position then
      visit (standing.exchange inside more)
        (visited.push (standing.exchange inside more).current)
    else
      visit (standing.pass inside) visited
  else
    visited
termination_by
  (exchangesLeft standing.counters standing.position standing.current.size,
    standing.current.size - standing.position)
decreasing_by
  · refine Prod.Lex.left _ _ ?_
    have size : (standing.exchange inside more).current.size = standing.current.size :=
      Array.size_swapIfInBounds
    have fewer := standing.exchangesLeft_exchange inside more inside
    rw [size]
    exact Nat.lt_of_succ_le (Nat.le_of_eq fewer)
  · have same := standing.exchangesLeft_pass inside more standing.current.size
    rw [Prod.lex_def]
    exact .inr ⟨same, Nat.sub_succ_lt_self _ _ inside⟩

end Enumeration

end Orderings

/-- Every order of a list, the given one first. -/
def orderings {α : Type} (items : List α) : List (List α) :=
  ((Orderings.Enumeration.start items.toArray).visit #[items.toArray]).toList.map Array.toList

namespace Chain

/-- Runs a chain on the signal zero, around until it settles or once through. -/
def runFromZero (fuel : Nat) (feedback : Bool) (chain : Chain) :
    Option (Except Error Word × Chain) :=
  if feedback then chain.runFeedback fuel 0 else chain.runSerial fuel 0

/-- The better of the best so far and a new signal; the earlier wins a draw. -/
def better (best : Option (Word × List Word)) (signal : Word) (phases : List Word) :
    Word × List Word :=
  match best with
  | none => (signal, phases)
  | some (top, earlier) => if top < signal then (signal, phases) else (top, earlier)

/-- Tries orders one after the other on the same chain. The first error ends the search. -/
def search (fuel : Nat) (feedback : Bool) :
    Option (Word × List Word) → List (List Word) → Chain →
      Option (Except Error (Word × List Word))
  | some best, [], _ => some (.ok best)
  | none, [], _ =>
      some (.error ((Error.invalidArgument "no phase candidates").inOperation
        "chain::best_phases"))
  | best, phases :: rest, chain =>
      match chain.reseed phases with
      | .error error => some (.error error)
      | .ok chain =>
          match chain.runFromZero fuel feedback with
          | none => none
          | some (.error error, _) => some (.error error)
          | some (.ok signal, chain) =>
              search fuel feedback (some (better best signal phases)) rest chain

/-- The highest signal over all orders of the candidates, with the order that gives it. -/
def bestPhases (fuel : Nat) (program : Program) (candidates : List Word) (feedback : Bool) :
    Option (Except Error (Word × List Word)) :=
  match ofPhases program candidates with
  | .error error => some (.error error)
  | .ok chain => search fuel feedback none (orderings candidates) chain

end Chain

end Intcode
