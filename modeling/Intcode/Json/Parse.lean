import Intcode.Json.Basic
import Intcode.Json.Token

/-! # Reading JSON

A value is read from the tokens of a text. The text must be one value and nothing else. -/

namespace Intcode.Json

mutual

/-- The value at the front of some tokens, and the tokens behind it. -/
def takeValue : (fuel : Nat) → List Token → Option (Json × List Token)
  | 0, _ => none
  | fuel + 1, tokens =>
      match tokens with
      | .null :: rest => some (.null, rest)
      | .boolean value :: rest => some (.boolean value, rest)
      | .number written :: rest => some (.number written, rest)
      | .string literal :: rest => some (.string literal, rest)
      | .openBracket :: .closeBracket :: rest => some (.array [], rest)
      | .openBracket :: rest => (takeItems fuel rest).map fun (items, rest) => (.array items, rest)
      | .openBrace :: .closeBrace :: rest => some (.object [], rest)
      | .openBrace :: rest =>
          (takeMembers fuel rest).map fun (members, rest) => (.object members, rest)
      | _ => none

/-- Items up to the closing bracket, at least one. -/
def takeItems : (fuel : Nat) → List Token → Option (List Json × List Token)
  | 0, _ => none
  | fuel + 1, tokens =>
      match takeValue fuel tokens with
      | some (item, .comma :: rest) =>
          (takeItems fuel rest).map fun (items, rest) => (item :: items, rest)
      | some (item, .closeBracket :: rest) => some ([item], rest)
      | _ => none

/-- Members up to the closing brace, at least one. -/
def takeMembers : (fuel : Nat) → List Token → Option (List (List Char × Json) × List Token)
  | 0, _ => none
  | fuel + 1, tokens =>
      match tokens with
      | .string key :: .colon :: rest =>
          match takeValue fuel rest with
          | some (value, .comma :: rest) =>
              (takeMembers fuel rest).map fun (members, rest) => ((key, value) :: members, rest)
          | some (value, .closeBrace :: rest) => some ([(key, value)], rest)
          | _ => none
      | _ => none

end

/-- The value that some tokens make. Two calls at most go by before a token is used up. -/
def ofTokens? (tokens : List Token) : Option Json :=
  match takeValue (2 * tokens.length + 1) tokens with
  | some (value, []) => some value
  | _ => none

def parse? (text : String) : Option Json :=
  (Token.scan text.toList).bind ofTokens?

end Intcode.Json
