import Intcode.Json.Literal
import Intcode.Json.Parse
import Intcode.Word

/-! # Forms

A form says how the values of a type are written as JSON and which JSON values are read back as
which value. Reading is more liberal than writing: the members of an object may come in any
order and be mixed with others, an array of just the values may stand for an object, and a name
may also be the only key of an object whose value is null. -/

namespace Intcode.Json

/-- A way to write and to read the values of a type. -/
structure Form (α : Type) where
  write : α → Json
  read : Json → Option α

namespace Form

/-- Reads a text. -/
def ofText? {α : Type} (form : Form α) (text : String) : Option α :=
  (parse? text).bind form.read

def toText {α : Type} (form : Form α) (value : α) : String :=
  (form.write value).text

def word : Form Word where
  write value := ofInt value.toInt
  read value := (int? Word.least Word.greatest value).map Int64.ofInt

def size : Form UInt64 where
  write value := ofInt value.toNat
  read value := (int? 0 (Int.pow 2 64 - 1) value).map fun value => UInt64.ofNat value.toNat

/-- An absent value is null. -/
def option {α : Type} (form : Form α) : Form (Option α) where
  write
    | none => .null
    | some value => form.write value
  read
    | .null => some none
    | value => (form.read value).map some

def list {α : Type} (form : Form α) : Form (List α) where
  write values := .array (values.map form.write)
  read
    | .array items => items.mapM form.read
    | _ => none

def named? {α : Type} (all : List α) (name : α → String) (literal : List Char) : Option α :=
  (decode? literal).bind fun text => all.find? fun value => name value == text

def names {α : Type} (all : List α) (name : α → String) : Form α where
  write value := .string (name value).toList
  read
    | .string literal => named? all name literal
    | .object [(key, .null)] => named? all name key
    | _ => none

/-! ## Records -/

def decodeKeys? : List (List Char × Json) → Option (List (String × Json))
  | [] => some []
  | (key, value) :: members => do
      let key ← decode? key
      let members ← decodeKeys? members
      return (key, value) :: members

/-- The values of a record's fields, in order, from an object or from an array of exactly so many
items. In an object a field may be missing, but none may be given twice. -/
def fields? (fields : List String) : Json → Option (List (Option Json))
  | .array items =>
      if items.length = fields.length then some (items.map some) else none
  | .object members =>
      match decodeKeys? members with
      | none => none
      | some members =>
          if fields.all fun field => members.countP (fun member => member.1 == field) ≤ 1 then
            some (fields.map fun field => members.lookup field)
          else none
  | _ => none

def record (fields : List (String × Json)) : Json :=
  .object (fields.map fun (field, value) => (field.toList, value))

def required {α : Type} (form : Form α) (value : Option Json) : Option α :=
  value.bind form.read

/-- Reads a field that may be missing, which is as good as null. -/
def optional {α : Type} (form : Form α) : Option Json → Option (Option α)
  | none => some none
  | some value => form.option.read value

end Form

end Intcode.Json
