import Intcode.Error

/-! # What errors are told

On its way up an error is told things, in any order and any number: the operations that pass it on,
particulars of what happened, and what is behind it. The operation named last stands by itself, and
those before it are moved into the particulars, each when the next is named.

Read as one row, the operations that an error names (`Error.calls`) and its other particulars
(`Error.particulars`) each grow by what the error is told and lose nothing (`Error.calls_tell`,
`Error.particulars_tell`, `Error.tellAll_adds`). So an error that began with a kind and a message
names the operations it was told, in order, and has the particulars it was told, in order and with
repetitions (`Error.notes_are_kept`). -/

namespace Intcode.Error

/-- Something that an error is told. -/
inductive Note
  | operation (name : String)
  | particular (key value : String)
  /-- A plain sentence behind the error. -/
  | sentence (text : String)
  /-- Another error behind the error. -/
  | source (error : Error)
  deriving DecidableEq, Repr

namespace Note

/-- The operation that a note names. The empty name names none. -/
def name? : Note → Option String
  | .operation name => if name = "" then none else some name
  | _ => none

def particular? : Note → Option (String × String)
  | .particular key value => some (key, value)
  | _ => none

end Note

def tell (error : Error) : Note → Error
  | .operation name => error.inOperation name
  | .particular key value => error.withContext key value
  | .sentence text => error.becauseOf text
  | .source source => error.causedBy source

def tellAll (error : Error) (notes : List Note) : Error :=
  notes.foldl tell error

/-- The operations that passed the error on, the first of them first: those that were moved into the
particulars and then the one that stands by itself. -/
def calls (error : Error) : List String :=
  (error.context.filter fun pair => pair.1 = "called").map Prod.snd ++
    if error.operation = "" then [] else [error.operation]

/-- The particulars that are no operations. -/
def particulars (error : Error) : List (String × String) :=
  error.context.filter fun pair => pair.1 ≠ "called"

variable {error : Error} {note : Note} {notes : List Note} {kind : ErrorKind}
  {message key value : String}

/-! ## One note -/

theorem calls_inOperation (error : Error) (name : String) :
    (error.inOperation name).calls = error.calls ++ if name = "" then [] else [name] := by
  unfold calls inOperation
  by_cases unnamed : error.operation = ""
  · simp only [unnamed, ↓reduceIte, List.append_nil]
  · simp only [unnamed, ↓reduceIte, List.filter_append, List.filter_cons, List.filter_nil,
      List.map_append, List.map_cons, List.map_nil, decide_true]

theorem particulars_inOperation (error : Error) (name : String) :
    (error.inOperation name).particulars = error.particulars := by
  unfold particulars inOperation
  by_cases unnamed : error.operation = ""
  · simp only [unnamed, ↓reduceIte]
  · simp [unnamed]

theorem filter_withContext (test : String × String → Bool) (error : Error) (key value : String) :
    (error.withContext key value).context.filter test =
      error.context.filter test ++ if test (key, value) then [(key, value)] else [] := by
  rw [withContext, List.filter_append, List.filter_cons, List.filter_nil]

/-- A note that is no particular under `called` adds to the operations what it names. -/
theorem calls_tell (plain : ∀ value, note ≠ .particular "called" value) (error : Error) :
    (error.tell note).calls = error.calls ++ note.name?.toList := by
  cases note with
  | operation name =>
      rw [tell, calls_inOperation, Note.name?]
      split <;> rfl
  | particular key value =>
      have other : key ≠ "called" := fun same => plain value (same ▸ rfl)
      have same := filter_withContext (fun pair => pair.1 = "called") error key value
      simp only [other, decide_false, Bool.false_eq_true, ↓reduceIte, List.append_nil] at same
      rw [tell, calls, same]
      exact (List.append_nil _).symm
  | sentence | source => exact (List.append_nil _).symm

/-- Only a particular adds to the particulars. -/
theorem particulars_tell (plain : ∀ value, note ≠ .particular "called" value) (error : Error) :
    (error.tell note).particulars = error.particulars ++ note.particular?.toList := by
  cases note with
  | operation name => exact (particulars_inOperation error name).trans (List.append_nil _).symm
  | particular key value =>
      have other : key ≠ "called" := fun same => plain value (same ▸ rfl)
      have more := filter_withContext (fun pair => pair.1 ≠ "called") error key value
      simp only [other, ne_eq, not_false_eq_true, decide_true, ↓reduceIte] at more
      exact more
  | sentence | source => exact (List.append_nil _).symm

/-! ## Notes one after the other -/

/-- Let there be a row to which each of some notes adds its part. Then all of them add their parts,
in order. -/
theorem tellAll_adds {α : Type} {row : Error → List α} {part : Note → Option α}
    (adds : ∀ note ∈ notes, ∀ error, row (tell error note) = row error ++ (part note).toList)
    (error : Error) : row (error.tellAll notes) = row error ++ notes.filterMap part := by
  induction notes generalizing error with
  | nil => exact (List.append_nil _).symm
  | cons note rest ih =>
      obtain ⟨here, others⟩ := List.forall_mem_cons.mp adds
      calc row (error.tellAll (note :: rest))
          = row (error.tell note) ++ rest.filterMap part := ih others (error.tell note)
        _ = row error ++ (note :: rest).filterMap part := by
            rw [here, List.append_assoc, List.filterMap_cons]
            cases part note <;> rfl

theorem kind_tellAll (error : Error) (notes : List Note) :
    (error.tellAll notes).kind = error.kind ∧ (error.tellAll notes).message = error.message := by
  induction notes generalizing error with
  | nil => exact ⟨rfl, rfl⟩
  | cons note rest ih =>
      have here : (error.tell note).kind = error.kind ∧
          (error.tell note).message = error.message := by
        cases note <;> exact ⟨rfl, rfl⟩
      have later := ih (error.tell note)
      exact ⟨later.1.trans here.1, later.2.trans here.2⟩

/-! ## Looking particulars up -/

/-- The value of the first particular with a key. -/
theorem contextValue?_eq_some_iff : error.contextValue? key = some value ↔
    ∃ before behind, error.context = before ++ (key, value) :: behind ∧
      ∀ pair ∈ before, pair.1 ≠ key := by
  simp only [contextValue?, List.lookup_eq_some_iff, bne_iff_ne, ne_comm]

theorem contextValue?_eq_none_iff :
    error.contextValue? key = none ↔ ∀ pair ∈ error.context, pair.1 ≠ key := by
  simp only [contextValue?, List.lookup_eq_none_iff, bne_iff_ne, ne_comm]

/-- The operations among the particulars have no part in looking up another key. -/
theorem contextValue?_eq_lookup (other : key ≠ "called") :
    error.contextValue? key = error.particulars.lookup key := by
  unfold contextValue? particulars
  induction error.context with
  | nil => rfl
  | cons pair rest ih =>
      obtain ⟨name, value⟩ := pair
      by_cases called : name = "called"
      · subst called
        rw [List.filter_cons_of_neg (by simp), List.lookup_cons, beq_false_of_ne other, ih]
      · rw [List.filter_cons_of_pos (by simpa using called), List.lookup_cons, List.lookup_cons, ih]

/-- **What an error is told is kept.** Let an error begin with a kind and a message and be told
operations, particulars and causes, in any order, no particular under `called`. Then the operations
that were moved under `called`, and behind them the one that stands by itself, are the operations it
was told, in order and without those that have no name; its other particulars are those it was told,
in order and with repetitions; and kind and message are as they were. Under a key it gives the value
of the first particular that has the key, which for a key other than `called` is the first that it
was told. -/
theorem notes_are_kept (plain : ∀ value, .particular "called" value ∉ notes)
    (told : (ofMessage kind message).tellAll notes = error) :
    error.calls = notes.filterMap Note.name? ∧
    error.particulars = notes.filterMap Note.particular? ∧
    error.kind = kind ∧ error.message = message ∧
    (∀ key value, error.contextValue? key = some value ↔
      ∃ before behind, error.context = before ++ (key, value) :: behind ∧
        ∀ pair ∈ before, pair.1 ≠ key) ∧
    (∀ key, error.contextValue? key = none ↔ ∀ pair ∈ error.context, pair.1 ≠ key) ∧
    ∀ key ≠ "called", error.contextValue? key = (notes.filterMap Note.particular?).lookup key := by
  have plainly {note : Note} (among : note ∈ notes) (value : String) :
      note ≠ .particular "called" value := fun same => plain value (same ▸ among)
  have calls : error.calls = notes.filterMap Note.name? := by
    rw [← told, tellAll_adds fun note among => calls_tell (plainly among)]
    rfl
  have particulars : error.particulars = notes.filterMap Note.particular? := by
    rw [← told, tellAll_adds fun note among => particulars_tell (plainly among)]
    rfl
  obtain ⟨sameKind, sameMessage⟩ := kind_tellAll (ofMessage kind message) notes
  rw [told] at sameKind sameMessage
  refine ⟨calls, particulars, sameKind, sameMessage, fun _ _ => contextValue?_eq_some_iff,
    fun _ => contextValue?_eq_none_iff, fun key other => ?_⟩
  rw [contextValue?_eq_lookup other, particulars]

/-- An error that passes three operations and one without a name, and is told twice of an address.
-/
def passedOn : List Note :=
  [.operation "memory::read", .particular "address" "-1", .operation "", .sentence "stray pointer",
    .operation "machine::step", .particular "address" "7", .operation "network::round"]

/-- The operation without a name is left out, and the first address is found. -/
theorem passedOn_is_kept : ∃ error, (ofMessage .negativeAddress "gone astray").tellAll passedOn =
      error ∧
    (∀ value, .particular "called" value ∉ passedOn) ∧
    error.calls = ["memory::read", "machine::step", "network::round"] ∧
    error.particulars = [("address", "-1"), ("address", "7")] ∧
    error.contextValue? "address" = some "-1" ∧ error.contextValue? "ip" = none := by
  have plain (value : String) : .particular "called" value ∉ passedOn := by
    simp [passedOn]
  obtain ⟨calls, particulars, _, _, _, _, found⟩ := notes_are_kept plain
    (rfl : (ofMessage .negativeAddress "gone astray").tellAll passedOn = _)
  exact ⟨_, rfl, plain, calls, particulars, found "address" (by decide), found "ip" (by decide)⟩

end Intcode.Error
