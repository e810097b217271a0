namespace DataFlash

def twoTo (n : Nat) : Nat := Nat.pow 2 n

inductive Binary64 where
  | nan
  | infinite (negative : Bool)
  | finite (negative : Bool) (significand : Nat) (exponent : Int)
  deriving DecidableEq, Repr

namespace Binary64

/-- The significand has an implicit leading bit unless the exponent field is zero. -/
def ofBits (bits : UInt64) : Binary64 :=
  let n := bits.toNat
  let negative := decide (twoTo 63 ≤ n)
  let biased := n / twoTo 52 % twoTo 11
  let fraction := n % twoTo 52
  if biased = 2047 then
    if fraction = 0 then .infinite negative else .nan
  else if biased = 0 then .finite negative fraction (-1074)
  else .finite negative (twoTo 52 + fraction) (↑biased - 1075)

def ofFloat (x : Float) : Binary64 := ofBits x.toBits

def numerator (negative : Bool) (significand : Nat) (exponent : Int) : Int :=
  let n : Int := ↑(significand * twoTo exponent.toNat)
  if negative then -n else n

/-- A double as a 64-bit integer, where `divide` settles the fraction. No number gives 0. -/
def toInt64 (divide : Int → Int → Int) : Binary64 → Int64
  | nan => 0
  | infinite true => Int64.minValue
  | infinite false => Int64.maxValue
  | finite negative significand exponent =>
    Int64.ofIntClamp <|
      divide (numerator negative significand exponent) (twoTo (-exponent).toNat)

end Binary64

def truncated (x : Float) : Int64 := (Binary64.ofFloat x).toInt64 Int.tdiv

def floored (x : Float) : Int64 := (Binary64.ofFloat x).toInt64 Int.fdiv

def widened (bits : UInt32) : Float :=
  let n := bits.toNat
  let biased := n / twoTo 23 % twoTo 8
  let fraction := n % twoTo 23
  let sign := if twoTo 31 ≤ n then twoTo 63 else 0
  let magnitude :=
    if biased = 255 then 2047 * twoTo 52 + fraction * twoTo 29
    else if biased = 0 then
      if fraction = 0 then 0
      else
        let top := fraction.log2
        (874 + top) * twoTo 52 + (fraction - twoTo top) * twoTo (52 - top)
    else (biased + 896) * twoTo 52 + fraction * twoTo 29
  Float.ofBits (UInt64.ofNat (sign + magnitude))

end DataFlash
