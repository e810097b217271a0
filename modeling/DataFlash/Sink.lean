import DataFlash.Text.Utf8

namespace DataFlash

/-- An output: the bytes it still takes, without a limit if none is given, and what it has taken
piece by piece, newest first. -/
structure Sink where
  room : Option Nat := none
  pieces : List (List UInt8) := []

namespace Sink

def bytes (s : Sink) : List UInt8 := s.pieces.reverse.flatten

def text (s : Sink) : String := String.ofList (Utf8.decode s.bytes)

/-- The output after a write, and whether it took all of it. -/
def write (s : Sink) (piece : List UInt8) : Sink × Bool :=
  match s.room with
  | none => ({ s with pieces := piece :: s.pieces }, true)
  | some n =>
    ({ room := some (n - piece.length), pieces := piece.take n :: s.pieces }, piece.length ≤ n)

end Sink

end DataFlash
