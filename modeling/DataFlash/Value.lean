import DataFlash.Number.Notation
import DataFlash.Text.Quoted

namespace DataFlash

inductive Value where
  | int (n : Int64)
  | uint (n : UInt64)
  | float (x : Float)
  | text (s : String)
  | array (ns : List Int16)

namespace Value

/-- The number of a numeric field, rounded to a double. -/
def toFloat? : Value → Option Float
  | int n => some (Float.ofInt n.toInt)
  | uint n => some n.toFloat
  | float x => some x
  | text _ | array _ => none

/-- The number of a numeric field without its fraction. An unsigned number wraps. -/
def toInt64? : Value → Option Int64
  | int n => some n
  | uint n => some n.toInt64
  | float x => some (truncated x)
  | text _ | array _ => none

/-- The low 32 bits of a numeric field. -/
def toMask? : Value → Option UInt32
  | uint n => some n.toUInt32
  | v => v.toInt64?.map fun n => n.toUInt64.toUInt32

def toText? : Value → Option String
  | text s => some s
  | _ => none

def listText (ns : List Int16) : String :=
  "[" ++ ", ".intercalate (ns.map fun n => toString n.toInt) ++ "]"

def display : Value → String
  | int n => toString n.toInt
  | uint n => toString n.toNat
  | float x => Layout.value.text x
  | text s => s
  | array ns => listText ns

/-- A value under the name of its kind, as messages show it. -/
def labelled : Value → String
  | int n => "Int(" ++ toString n.toInt ++ ")"
  | uint n => "UInt(" ++ toString n.toNat ++ ")"
  | float x => "Float(" ++ Layout.message.text x ++ ")"
  | text s => "Text(" ++ Text.quoted s ++ ")"
  | array ns => "Array(" ++ listText ns ++ ")"

end Value

end DataFlash
