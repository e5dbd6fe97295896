import Intcode.CommandLine.Perform

/-! # The program

Reads the file and the standard input that an invocation asks for, carries the invocation out and
prints what it leaves behind. -/

namespace Intcode

/-- The number of turns a run is given, which no run uses up. -/
def turns : Nat := Nat.pow 2 62

def refusalOf : IO.Error → Refusal
  | .noFileOrDirectory .. => .notFound
  | .permissionDenied .. => .permissionDenied
  | .inappropriateType _ 21 _ => .isDirectory
  | .inappropriateType .. => .notDirectory
  | error => ⟨.other, toString error⟩

def readPath (path : String) : IO FileRead := do
  if path.contains '\x00' then return .error .nameWithNul
  try
    return .ok (← IO.FS.readBinFile path)
  catch error => return .error (refusalOf error)

/-- All bytes of a stream. -/
partial def readAll (stream : IO.FS.Stream) (soFar : ByteArray) : IO ByteArray := do
  let chunk ← stream.read 65536
  if chunk.isEmpty then return soFar else readAll stream (soFar ++ chunk)

def print (transcript : Transcript) : IO UInt32 := do
  IO.print transcript.stdout
  IO.eprint transcript.stderr
  return UInt32.ofNat transcript.exitCode

/-- Carries out an invocation in the surroundings of the program. -/
def carryOut (invocation : Invocation) : IO UInt32 := do
  let file ← readPath invocation.command.file
  let input ←
    if invocation.command.readsInput then readAll (← IO.getStdin) ByteArray.empty
    else pure ByteArray.empty
  match invocation.perform turns file input.toList with
  | some transcript => print transcript
  | none => return 1

end Intcode

open Intcode in
def main (arguments : List String) : IO UInt32 := do
  match CommandLine.parse? arguments with
  | none => print Transcript.refused
  | some .version =>
      IO.print Request.versionText
      return 0
  | some .help =>
      IO.print Request.usageText
      return 0
  | some (.invoke invocation) => carryOut invocation
