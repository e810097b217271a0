import DataFlash.Number.Binary64

namespace DataFlash

def tenTo (n : Nat) : Nat := Nat.pow 10 n

/-- The decimal `digits · 10 ^ exponent`. -/
structure Decimal where
  digits : Nat
  exponent : Int
  deriving DecidableEq, Repr

namespace Decimal

/-- The double and the ends of its interval, in quarters of the last place of the significand.
Below a power of two the neighbours lie half as far apart. -/
def quarters (significand : Nat) (exponent : Int) : Nat × Nat × Nat :=
  let low := if significand = twoTo 52 ∧ -1074 < exponent then 1 else 2
  (4 * significand - low, 4 * significand, 4 * significand + 2)

/-- The decimal of the interval nearest to the double among the multiples of `10 ^ place`. The
ends of the interval belong to it if the significand is even. -/
def onGrid? (significand : Nat) (exponent place : Int) : Option Decimal :=
  let (low, value, high) := quarters significand exponent
  let scale := twoTo (exponent - 2).toNat * tenTo (-place).toNat
  let unit := tenTo place.toNat * twoTo (2 - exponent).toNat
  let inside (n : Nat) : Bool :=
    if significand % 2 = 0 then low * scale ≤ n * unit && n * unit ≤ high * scale
    else low * scale < n * unit && n * unit < high * scale
  let below := value * scale / unit
  let above := below + 1
  if inside above && (!inside below ||
      above * unit - value * scale ≤ value * scale - below * unit) then some ⟨above, place⟩
  else if inside below then some ⟨below, place⟩
  else none

def topPlace (significand : Nat) (exponent : Int) : Int :=
  (significand.log2 + exponent + 1) * 30103 / 100000 + 2

def exact (significand : Nat) (exponent : Int) : Decimal :=
  ⟨significand * twoTo exponent.toNat * Nat.pow 5 (-exponent).toNat, min exponent 0⟩

/-- The shortest decimal of a positive double. Seventeen digits always suffice. -/
def shortest (significand : Nat) (exponent : Int) : Decimal :=
  let top := topPlace significand exponent
  ((List.range 22).findSome? fun (i : Nat) => onGrid? significand exponent (top - i)).getD
    (exact significand exponent)

end Decimal

end DataFlash
