import DataFlash.Calendar
import DataFlash.Number.Notation

namespace DataFlash.Timestamp

/-- The first and the last of the seconds that have a date. -/
def firstDated : Int := -8334601228800

def lastDated : Int := 8210266876799

/-- Years from 0 to 9999 have four digits, others a sign and at least four. -/
def yearText (year : Int) : List Char :=
  if 0 ≤ year ∧ year ≤ 9999 then paddedDigits 4 year.toNat
  else (if year < 0 then '-' else '+') :: paddedDigits 4 year.natAbs

/-- Date and time of day of a count of seconds since 1970. The zone is fixed to UTC: the local time
of another zone is this text of the seconds with the offset of the zone added. -/
def dateText (seconds : Int) : List Char :=
  let date := Calendar.date (seconds / 86400)
  let second := (seconds % 86400).toNat
  yearText date.year ++ ['-'] ++ paddedDigits 2 date.month ++ ['-'] ++ paddedDigits 2 date.day ++
    [' '] ++ paddedDigits 2 (second / 3600) ++ [':'] ++ paddedDigits 2 (second / 60 % 60) ++
    [':'] ++ paddedDigits 2 (second % 60)

def secondText (seconds : Int) : List Char :=
  if firstDated ≤ seconds ∧ seconds ≤ lastDated then dateText seconds
  else (toString seconds).toList

def second (time : Float) : Int := (floored time).toInt

/-- The hundredths past a whole second. -/
def hundredths (time : Float) : Nat := ((truncated (time * 100)).toInt % 100).toNat

/-- A time in UTC, to the second, and its hundredths. -/
def text (time : Float) : String :=
  String.ofList (secondText (second time) ++ ['.'] ++ paddedDigits 2 (hundredths time))

end DataFlash.Timestamp
