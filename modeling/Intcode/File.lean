import Intcode.Program

/-! # Program files

Reading a file comes to its bytes or to a refusal. Only the text of a refusal and a coarse
division of refusals reach the error, so nothing else of the file system is kept. -/

namespace Intcode

/-- How reading is refused, told apart as far as the kind of error depends on it. -/
inductive FileFault
  | notFound
  | permissionDenied
  | other
  deriving DecidableEq, Repr

def FileFault.kind : FileFault → ErrorKind
  | .notFound => .fileNotFound
  | .permissionDenied => .permissionDenied
  | .other => .ioFailed

/-- A refused request, with the system's words for it. -/
structure Refusal where
  fault : FileFault
  message : String
  deriving DecidableEq, Repr

namespace Refusal

def notFound : Refusal :=
  ⟨.notFound, "No such file or directory (os error 2)"⟩

def permissionDenied : Refusal :=
  ⟨.permissionDenied, "Permission denied (os error 13)"⟩

def isDirectory : Refusal :=
  ⟨.other, "Is a directory (os error 21)"⟩

def notDirectory : Refusal :=
  ⟨.other, "Not a directory (os error 20)"⟩

def nameWithNul : Refusal :=
  ⟨.other, "file name contained an unexpected NUL byte"⟩

def notUtf8 : Refusal :=
  ⟨.other, "stream did not contain valid UTF-8"⟩

/-- The error for a refusal, which is its own cause in words. -/
def toError (refusal : Refusal) : Error :=
  ((Error.ofMessage refusal.fault.kind refusal.message).inOperation "io").becauseOf refusal.message

end Refusal

/-- The outcome of reading a file. -/
abbrev FileRead := Except Refusal ByteArray

/-- The text of a file that was read, if its bytes are one. -/
def FileRead.text (read : FileRead) : Except Refusal String := do
  let bytes ← read
  match String.fromUTF8? bytes with
  | some text => .ok text
  | none => .error .notUtf8

/-- The program in the file at a path, given what reading the path came to. -/
def Program.ofFile (path : String) (read : FileRead) : Except Error Program :=
  match read.text with
  | .error refusal =>
      .error ((refusal.toError.inOperation "program::from_file").withContext "path" path)
  | .ok text => (Program.parse text).mapError (·.withContext "path" path)

/-! ## A directory by the paths below it -/

/-- What lies at a path. -/
inductive DirectoryEntry
  | file (bytes : ByteArray)
  | directory

/-- A directory by what lies at some paths below it. The directories on the way to them are there
as well. -/
structure Directory where
  entries : List (String × DirectoryEntry)

namespace Directory

/-- Where the walk along a path has come to. -/
inductive Place
  /-- Somewhere above the directory, where nothing is known. -/
  | above
  /-- The directory reached by these names. -/
  | below (names : List (List Char))
  | file (bytes : ByteArray)

def Place.parent : Place → Place
  | .below (first :: names) => .below (first :: names).dropLast
  | _ => .above

/-- The entries by the names that lead to them. -/
def places (directory : Directory) : List (List (List Char) × DirectoryEntry) :=
  directory.entries.map fun (path, entry) => (Text.splitOn '/' path.toList, entry)

def find? (directory : Directory) (names : List (List Char)) : Option Place :=
  match directory.places.lookup names with
  | some (.file bytes) => some (.file bytes)
  | some .directory => some (.below names)
  | none =>
      if directory.places.any fun (path, _) => names.isPrefixOf path then some (.below names)
      else none

/-- What a name leads to from a place. -/
def enter (directory : Directory) (name : List Char) : Place → Except Refusal Place
  | .file _ => .error .notDirectory
  | place =>
      if name = [] ∨ name = ['.'] then .ok place
      else if name = ['.', '.'] then .ok place.parent
      else
        match place with
        | .below names =>
            match directory.find? (names ++ [name]) with
            | some place => .ok place
            | none => .error .notFound
        | _ => .error .notFound

/-- Reads what is reached from a place through some names. -/
def readFrom (directory : Directory) : Place → List (List Char) → FileRead
  | .file bytes, [] => .ok bytes
  | _, [] => .error .isDirectory
  | place, name :: names =>
      match directory.enter name place with
      | .error refusal => .error refusal
      | .ok place => readFrom directory place names

def read (directory : Directory) (path : String) : FileRead :=
  if path.toList.contains '\x00' then .error .nameWithNul
  else if path = "" then .error .notFound
  else
    directory.readFrom (if path.toList.head? = some '/' then .above else .below [])
      (Text.splitOn '/' path.toList)

end Directory

end Intcode
