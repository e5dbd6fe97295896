/-! # JSON values

A JSON value keeps its numbers and strings as they are written: a number by its digits, sign and
exponent, a string by what stands between its quotes, escapes included. What they stand for is
asked separately, since not every number is an integer and not every string literal is a text.
Objects keep their members in order, repeated keys and all. -/

namespace Intcode

/-- A JSON value. -/
inductive Json
  | null
  | boolean (value : Bool)
  | number (written : List Char)
  | string (literal : List Char)
  | array (items : List Json)
  /-- Members with what stands between the quotes of their keys. -/
  | object (members : List (List Char × Json))

namespace Json

def quoted (literal : List Char) : List Char :=
  '"' :: literal ++ ['"']

/-! ## Compact text -/

mutual

def compact : Json → List Char
  | .null => ['n', 'u', 'l', 'l']
  | .boolean true => ['t', 'r', 'u', 'e']
  | .boolean false => ['f', 'a', 'l', 's', 'e']
  | .number written => written
  | .string literal => quoted literal
  | .array items => '[' :: compactItems items
  | .object members => '\x7b' :: compactMembers members

def compactItems : List Json → List Char
  | [] => [']']
  | item :: items => compact item ++ compactMoreItems items

def compactMoreItems : List Json → List Char
  | [] => [']']
  | item :: items => ',' :: compact item ++ compactMoreItems items

def compactMembers : List (List Char × Json) → List Char
  | [] => ['\x7d']
  | (key, value) :: members => quoted key ++ ':' :: compact value ++ compactMoreMembers members

def compactMoreMembers : List (List Char × Json) → List Char
  | [] => ['\x7d']
  | (key, value) :: members =>
      ',' :: quoted key ++ ':' :: compact value ++ compactMoreMembers members

end

/-! ## Text over several lines -/

/-- A new line at a depth of nesting, two blanks deeper each time. -/
def newLine (depth : Nat) : List Char :=
  '\n' :: List.replicate (2 * depth) ' '

mutual

/-- The text of a value with every item and member on a line of its own. Empty arrays and objects
stay together. -/
def pretty (depth : Nat) : Json → List Char
  | .null => ['n', 'u', 'l', 'l']
  | .boolean true => ['t', 'r', 'u', 'e']
  | .boolean false => ['f', 'a', 'l', 's', 'e']
  | .number written => written
  | .string literal => quoted literal
  | .array [] => ['[', ']']
  | .array (item :: items) =>
      '[' :: newLine (depth + 1) ++ pretty (depth + 1) item ++ prettyMoreItems depth items
  | .object [] => ['\x7b', '\x7d']
  | .object ((key, value) :: members) =>
      '\x7b' :: newLine (depth + 1) ++ quoted key ++ [':', ' '] ++ pretty (depth + 1) value ++
        prettyMoreMembers depth members

def prettyMoreItems (depth : Nat) : List Json → List Char
  | [] => newLine depth ++ [']']
  | item :: items =>
      ',' :: newLine (depth + 1) ++ pretty (depth + 1) item ++ prettyMoreItems depth items

/-- The members behind the first of an object at a depth. -/
def prettyMoreMembers (depth : Nat) : List (List Char × Json) → List Char
  | [] => newLine depth ++ ['\x7d']
  | (key, value) :: members =>
      ',' :: newLine (depth + 1) ++ quoted key ++ [':', ' '] ++ pretty (depth + 1) value ++
        prettyMoreMembers depth members

end

def text (value : Json) : String :=
  String.ofList value.compact

def prettyText (value : Json) : String :=
  String.ofList (value.pretty 0)

end Json

end Intcode
