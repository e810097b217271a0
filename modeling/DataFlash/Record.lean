import DataFlash.Value
import DataFlash.Error

namespace DataFlash

structure Record where
  name : String
  fields : List (String × Value)
  timestamp : Option Float := none

namespace Record

/-- The first field of a column. -/
def get? (r : Record) (column : String) : Option Value := r.fields.lookup column

def require (r : Record) (column : String) : Except LogError Value :=
  match r.get? column with
  | some v => .ok v
  | none => .error (.missingField r.name column)

def time (r : Record) : Float := r.timestamp.getD 0

def float? (r : Record) (column : String) : Option Float :=
  (r.get? column).bind Value.toFloat?

def int64? (r : Record) (column : String) : Option Int64 :=
  (r.get? column).bind Value.toInt64?

end Record

end DataFlash
