import DataFlash.Number.Shortest

namespace DataFlash

def decimalDigits (n : Nat) : List Char := Nat.toDigits 10 n

def paddedDigits (width n : Nat) : List Char :=
  let ds := decimalDigits n
  List.replicate (width - ds.length) '0' ++ ds

/-- How a number is laid out: the powers of ten of the first digit for which it is written out in
full, and what follows a number without a fraction. -/
structure Layout where
  inFull : Int → Bool
  afterWhole : List Char

namespace Layout

/-- Values are always written out in full, a whole number without a point. -/
def value : Layout := { inFull := fun _ => true, afterWhole := [] }

/-- In messages a number shows that it is no integer, and one below 10⁻⁴ or from 10¹⁶ on has an
exponent. -/
def message : Layout := { inFull := fun e => -4 ≤ e && e ≤ 15, afterWhole := ['.', '0'] }

def full (layout : Layout) (digits : List Char) (point : Int) : List Char :=
  if point ≤ 0 then ['0', '.'] ++ List.replicate (-point).toNat '0' ++ digits
  else
    let n := point.toNat
    if digits.length ≤ n then
      digits ++ List.replicate (n - digits.length) '0' ++ layout.afterWhole
    else digits.take n ++ ['.'] ++ digits.drop n

def scientific (digits : List Char) (point : Int) : List Char :=
  let fraction := digits.drop 1
  digits.take 1 ++ (if fraction.isEmpty then [] else '.' :: fraction) ++
    ['e'] ++ (toString (point - 1)).toList

def positive (layout : Layout) (d : Decimal) : List Char :=
  let digits := decimalDigits d.digits
  let point := digits.length + d.exponent
  if layout.inFull (point - 1) then layout.full digits point else scientific digits point

def text (layout : Layout) (x : Float) : String :=
  match Binary64.ofFloat x with
  | .nan => "NaN"
  | .infinite negative => if negative then "-inf" else "inf"
  | .finite negative significand exponent =>
    let sign := if negative then ['-'] else []
    let magnitude :=
      if significand = 0 then '0' :: layout.afterWhole
      else layout.positive (Decimal.shortest significand exponent)
    String.ofList (sign ++ magnitude)

end Layout

/-- The quotient rounded to the nearest integer, a half to the even one. -/
def roundedQuotient (numerator denominator : Nat) : Nat :=
  let q := numerator / denominator
  let r := numerator % denominator
  if 2 * r < denominator then q
  else if denominator < 2 * r then q + 1
  else q + q % 2

/-- A number with a fixed count of places, rounded from its exact value. -/
def fixedText (places : Nat) (x : Float) : String :=
  match Binary64.ofFloat x with
  | .nan => "NaN"
  | .infinite negative => if negative then "-inf" else "inf"
  | .finite negative significand exponent =>
    let scaled := roundedQuotient (significand * twoTo exponent.toNat * tenTo places)
      (twoTo (-exponent).toNat)
    let sign := if negative then ['-'] else []
    String.ofList <| sign ++ decimalDigits (scaled / tenTo places) ++ ['.'] ++
      paddedDigits places (scaled % tenTo places)

end DataFlash
