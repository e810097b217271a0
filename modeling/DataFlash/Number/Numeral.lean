namespace DataFlash.Numeral

def ofDigits (digits : List Char) : Nat :=
  digits.foldl (fun n c => 10 * n + (c.toNat - '0'.toNat)) 0

def natural? (text : List Char) : Option Nat :=
  if text ≠ [] ∧ text.all Char.isDigit then some (ofDigits text) else none

/-- An unsigned number may have a plus sign. -/
def unsigned? (text : List Char) : Option UInt64 := do
  let n ← natural? (match text with
    | '+' :: rest => rest
    | _ => text)
  if n < UInt64.size then some (UInt64.ofNat n) else none

def sign : List Char → Bool × List Char
  | '-' :: rest => (true, rest)
  | '+' :: rest => (false, rest)
  | text => (false, text)

def integer? (text : List Char) : Option Int := do
  let (negative, rest) := sign text
  let n ← natural? rest
  some (if negative then -n else n)

def signed? (text : List Char) : Option Int64 := do
  let n ← integer? text
  if Int64.minValue.toInt ≤ n ∧ n ≤ Int64.maxValue.toInt then some (Int64.ofInt n) else none

/-- The double nearest to `mantissa · 10 ^ exponent`. Far beyond the range of doubles the power of
ten is not computed. -/
def scaled (mantissa : Nat) (exponent : Int) : Float :=
  let size := (Nat.toDigits 10 mantissa).length + exponent
  if mantissa = 0 ∨ size < -330 then 0
  else if 330 < size then 1 / 0
  else Float.ofScientific mantissa (exponent < 0) exponent.natAbs

def exponent? : List Char → Option Int
  | [] => some 0
  | c :: rest => if c = 'e' ∨ c = 'E' then integer? rest else none

/-- Digits with at most one point among them, at least one digit, and an optional exponent. -/
def decimal? (text : List Char) : Option Float := do
  let whole := text.takeWhile Char.isDigit
  let rest := text.dropWhile Char.isDigit
  let fraction := match rest with
    | '.' :: more => more.takeWhile Char.isDigit
    | _ => []
  let rest := match rest with
    | '.' :: more => more.dropWhile Char.isDigit
    | _ => rest
  if whole ++ fraction = [] then none
  else
    let e ← exponent? rest
    some (scaled (ofDigits (whole ++ fraction)) (e - fraction.length))

/-- Infinity and no number are named in any mixture of cases. -/
def named? (text : List Char) : Option Float :=
  let word := String.ofList (text.map Char.toLower)
  if word = "inf" ∨ word = "infinity" then some (1 / 0)
  else if word = "nan" then some (0 / 0)
  else none

def float? (text : List Char) : Option Float := do
  let (negative, rest) := sign text
  let x ← (named? rest).or (decimal? rest)
  some (if negative then -x else x)

end DataFlash.Numeral
