/-! # Fields between separators

A text with `n` separators has `n + 1` fields, some of them possibly empty; in particular the
empty text is one empty field. `splitOn_joinWith` and `joinWith_splitOn` say that splitting and
joining undo each other. -/

namespace Intcode.Text

/-- The fields of a text, a new one beginning behind each separator. -/
def splitOn (separator : Char) : List Char → List (List Char)
  | [] => [[]]
  | c :: rest =>
      if c = separator then [] :: splitOn separator rest
      else
        match splitOn separator rest with
        | [] => [[c]]
        | field :: fields => (c :: field) :: fields

/-- Puts the fields in a row with a separator between neighbours. -/
def joinWith (separator : List Char) : List (List Char) → List Char
  | [] => []
  | [field] => field
  | field :: fields => field ++ separator ++ joinWith separator fields

theorem splitOn_ne_nil (separator : Char) (text : List Char) : splitOn separator text ≠ [] := by
  cases text with
  | nil => simp [splitOn]
  | cons c rest =>
      simp only [splitOn]
      split
      · simp
      · split <;> simp

theorem joinWith_cons (separator : List Char) (field : List Char) {fields : List (List Char)}
    (more : fields ≠ []) :
    joinWith separator (field :: fields) = field ++ separator ++ joinWith separator fields := by
  cases fields with
  | nil => exact absurd rfl more
  | cons _ _ => rfl

/-- Joining the fields of a text restores it. -/
theorem joinWith_splitOn (separator : Char) (text : List Char) :
    joinWith [separator] (splitOn separator text) = text := by
  induction text with
  | nil => rfl
  | cons c rest ih =>
      simp only [splitOn]
      split
      · rename_i here
        rw [joinWith_cons _ _ (splitOn_ne_nil separator rest), ih, here]
        rfl
      · split
        · rename_i none
          exact absurd none (splitOn_ne_nil separator rest)
        · rename_i field fields split
          rw [split] at ih
          rw [← ih]
          cases fields <;> rfl

/-- A separator behind a text without any ends its field. -/
theorem splitOn_append {separator : Char} {field : List Char} (plain : separator ∉ field)
    (rest : List Char) :
    splitOn separator (field ++ separator :: rest) = field :: splitOn separator rest := by
  induction field with
  | nil => simp [splitOn]
  | cons c field ih =>
      simp only [List.mem_cons, not_or] at plain
      simp only [List.cons_append, splitOn, ih plain.2, Ne.symm plain.1, ↓reduceIte]

theorem splitOn_of_notMem {separator : Char} {field : List Char} (plain : separator ∉ field) :
    splitOn separator field = [field] := by
  induction field with
  | nil => rfl
  | cons c field ih =>
      simp only [List.mem_cons, not_or] at plain
      simp only [splitOn, ih plain.2, Ne.symm plain.1, ↓reduceIte]

/-- Splitting finds the fields that were joined, if none of them holds a separator. -/
theorem splitOn_joinWith {separator : Char} {fields : List (List Char)} (nonempty : fields ≠ [])
    (plain : ∀ field ∈ fields, separator ∉ field) :
    splitOn separator (joinWith [separator] fields) = fields := by
  induction fields with
  | nil => exact absurd rfl nonempty
  | cons field fields ih =>
      have here : separator ∉ field := plain field List.mem_cons_self
      cases fields with
      | nil => exact splitOn_of_notMem here
      | cons next fields =>
          rw [joinWith_cons _ _ (List.cons_ne_nil next fields), List.append_assoc,
            List.singleton_append, splitOn_append here,
            ih (List.cons_ne_nil next fields) fun field among =>
              plain field (List.mem_cons_of_mem _ among)]

end Intcode.Text
