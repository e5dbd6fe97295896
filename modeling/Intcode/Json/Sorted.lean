import Intcode.Json.Basic

/-! # Objects in order

The members of an object can be put in the order of their keys, at every depth. -/

namespace Intcode.Json

mutual

/-- A value whose objects, nested ones included, have their members by increasing key. -/
def sorted : Json → Json
  | .array items => .array (sortedItems items)
  | .object members =>
      .object ((sortedMembers members).mergeSort fun first second => !decide (second.1 < first.1))
  | value => value

def sortedItems : List Json → List Json
  | [] => []
  | item :: items => sorted item :: sortedItems items

def sortedMembers : List (List Char × Json) → List (List Char × Json)
  | [] => []
  | (key, value) :: members => (key, sorted value) :: sortedMembers members

end

end Intcode.Json
