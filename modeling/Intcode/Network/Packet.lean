import Intcode.Word

/-! # Packets

A node puts out three words for each packet it sends. They need not come all at once, so words
that do not make a packet yet are kept until the rest has come. -/

namespace Intcode

/-- A destination and the two words sent there. -/
structure Packet where
  dest : Word
  x : Word
  y : Word
  deriving DecidableEq, Repr

namespace Packet

/-- The words of a packet in the order in which they are put out. -/
def words (packet : Packet) : List Word :=
  [packet.dest, packet.x, packet.y]

/-- The complete packets at the front of some words, and the words left over. -/
def cut : List Word → List Packet × List Word
  | dest :: x :: y :: rest =>
      let (packets, left) := cut rest
      (⟨dest, x, y⟩ :: packets, left)
  | left => ([], left)

end Packet

end Intcode
