import DataFlash.Number.Numeral
import DataFlash.Text.Utf8
import DataFlash.Value

namespace DataFlash

inductive Scale where
  | hundredth
  | tenMillionth
  deriving DecidableEq, Repr

def Scale.toFloat : Scale → Float
  | hundredth => 0.01
  | tenMillionth => 1e-7

inductive FieldType where
  | signed (size : Nat)
  | unsigned (size : Nat)
  | single
  | double
  | scaledSigned (size : Nat) (scale : Scale)
  | scaledUnsigned (size : Nat) (scale : Scale)
  | text (size : Nat)
  | array
  deriving DecidableEq, Repr

namespace Bytes

def toNat : List UInt8 → Nat
  | [] => 0
  | b :: bs => b.toNat + 256 * toNat bs

def toInt (bytes : List UInt8) : Int :=
  (toNat bytes : Int).bmod (Nat.pow 256 bytes.length)

def toInt16s : List UInt8 → List Int16
  | low :: high :: rest => Int16.ofInt (toInt [low, high]) :: toInt16s rest
  | _ => []

/-- The text of a padded field: the bytes before the first NUL. -/
def toText (bytes : List UInt8) : String :=
  String.ofList (Utf8.decode (bytes.takeWhile (· != 0)))

/-- `n` more elements after those in `taken`, which are newest first, and the rest. -/
def splitFrom? {α : Type} (taken : List α) : Nat → List α → Option (List α × List α)
  | 0, rest => some (taken.reverse, rest)
  | _ + 1, [] => none
  | n + 1, a :: rest => splitFrom? (a :: taken) n rest

def split? {α : Type} (n : Nat) (l : List α) : Option (List α × List α) := splitFrom? [] n l

theorem splitFrom?_eq {α : Type} (taken : List α) (n : Nat) (l : List α) :
    splitFrom? taken n l =
      if n ≤ l.length then some (taken.reverse ++ l.take n, l.drop n) else none := by
  induction n generalizing taken l with
  | zero => simp [splitFrom?]
  | succ n ih =>
    cases l with
    | nil => simp [splitFrom?]
    | cons a rest => simp [splitFrom?, ih]

theorem split?_eq {α : Type} (n : Nat) (l : List α) :
    split? n l = if n ≤ l.length then some (l.take n, l.drop n) else none := by
  simp [split?, splitFrom?_eq]

theorem split?_eq_some {α : Type} {n : Nat} {l front back : List α}
    (h : split? n l = some (front, back)) : l = front ++ back ∧ front.length = n := by
  rw [split?_eq] at h
  split at h
  · simp only [Option.some.injEq, Prod.mk.injEq] at h
    obtain ⟨rfl, rfl⟩ := h
    exact ⟨(List.take_append_drop n l).symm, List.length_take_of_le ‹n ≤ l.length›⟩
  · simp at h

end Bytes

namespace FieldType

def ofChar? : Char → Option FieldType
  | 'b' => some (.signed 1)
  | 'B' => some (.unsigned 1)
  | 'M' => some (.unsigned 1)
  | 'h' => some (.signed 2)
  | 'H' => some (.unsigned 2)
  | 'c' => some (.scaledSigned 2 .hundredth)
  | 'C' => some (.scaledUnsigned 2 .hundredth)
  | 'i' => some (.signed 4)
  | 'I' => some (.unsigned 4)
  | 'f' => some .single
  | 'e' => some (.scaledSigned 4 .hundredth)
  | 'E' => some (.scaledUnsigned 4 .hundredth)
  | 'L' => some (.scaledSigned 4 .tenMillionth)
  | 'n' => some (.text 4)
  | 'd' => some .double
  | 'q' => some (.signed 8)
  | 'Q' => some (.unsigned 8)
  | 'N' => some (.text 16)
  | 'Z' => some (.text 64)
  | 'a' => some .array
  | _ => none

def size : FieldType → Nat
  | signed n | unsigned n | scaledSigned n _ | scaledUnsigned n _ | text n => n
  | single => 4
  | double => 8
  | array => 64

def decode (bytes : List UInt8) : FieldType → Value
  | signed _ => .int (Int64.ofInt (Bytes.toInt bytes))
  | unsigned _ => .uint (UInt64.ofNat (Bytes.toNat bytes))
  | single => .float (widened (UInt32.ofNat (Bytes.toNat bytes)))
  | double => .float (Float.ofBits (UInt64.ofNat (Bytes.toNat bytes)))
  | scaledSigned _ scale => .float (Float.ofInt (Bytes.toInt bytes) * scale.toFloat)
  | scaledUnsigned _ scale => .float (Float.ofInt (Bytes.toNat bytes) * scale.toFloat)
  | text _ => .text (Bytes.toText bytes)
  | array => .array (Bytes.toInt16s bytes)

/-- The value of a field's text. Integers need only fit in 64 bits, and an array stays text. -/
def parse? (raw : String) : FieldType → Option Value
  | signed _ => (Numeral.signed? raw.toList).map .int
  | unsigned _ => (Numeral.unsigned? raw.toList).map .uint
  | single | double | scaledSigned .. | scaledUnsigned .. =>
    (Numeral.float? raw.toList).map .float
  | text _ | array => some (.text raw)

end FieldType

def fieldSize? (c : Char) : Option Nat := (FieldType.ofChar? c).map FieldType.size

end DataFlash
