import DataFlash.FieldType
import DataFlash.Record
import DataFlash.Text.Lines

namespace DataFlash

/-- The bytes in front of a message's fields: two sync bytes and the type id. -/
def headerSize : Nat := 3

structure Definition where
  typeId : UInt8
  length : Nat
  name : String
  format : String
  columns : List String
  deriving DecidableEq, Repr

namespace Definition

def defining : Definition where
  typeId := 0x80
  length := 89
  name := "FMT"
  format := "BBnNZ"
  columns := ["Type", "Length", "Name", "Format", "Columns"]

/-- The column names in a comma-separated list; an empty one is no name. -/
def columnsOf (list : String) : List String :=
  (Text.parts list.toList).filterMap fun part =>
    if part.isEmpty then none else some (String.ofList part)

/-- A definition has known format characters only and one column for each. -/
def ofParts (typeId : UInt8) (length : Nat) (name format columns : String) :
    Except LogError Definition :=
  let names := columnsOf columns
  match format.toList.find? fun c => (FieldType.ofChar? c).isNone with
  | some c => .error (.unknownCharacter c name)
  | none =>
    if names.length ≠ format.toList.length then
      .error (.columnCount name format.toList.length names.length)
    else .ok { typeId, length, name, format, columns := names }

def payloadSize (d : Definition) : Nat :=
  d.format.toList.foldr (fun c size => (fieldSize? c).getD 0 + size) 0

/-- The bytes of a whole message, as far as its fields need them. -/
def needed (d : Definition) : Nat := headerSize + d.payloadSize

def number (r : Record) (column : String) : Except LogError Int := do
  match (← r.require column).toInt64? with
  | some n => .ok n.toInt
  | none => .error (.notNumeric column)

def text (r : Record) (column : String) : Except LogError String := do
  .ok (← r.require column).display

/-- The definition that a record spells out, if its length leaves room for its fields. -/
def ofRecord (r : Record) : Except LogError Definition := do
  let typeId ← number r "Type"
  if typeId < 0 ∨ 256 ≤ typeId then throw .typeNotByte
  let length ← number r "Length"
  if length < 0 then throw .negativeLength
  let name ← text r "Name"
  let format ← text r "Format"
  let columns ← text r "Columns"
  let d ← ofParts (UInt8.ofNat typeId.toNat) length.toNat name format columns
  if d.length < d.needed then throw (.lengthTooSmall d.name d.length d.needed)
  return d

def decodeField (c : Char) (payload : List UInt8) : Except LogError (Value × List UInt8) :=
  match FieldType.ofChar? c with
  | none => .error (.undecodable c)
  | some type =>
    match Bytes.split? type.size payload with
    | none => .error (.io .endOfData)
    | some (bytes, rest) => .ok (type.decode bytes, rest)

def decodeFields : List (Char × String) → List UInt8 → Except LogError (List (String × Value))
  | [], _ => .ok []
  | (c, column) :: more, payload => do
    let (value, rest) ← decodeField c payload
    let fields ← decodeFields more rest
    return (column, value) :: fields

def decode (d : Definition) (payload : List UInt8) : Except LogError (List (String × Value)) :=
  decodeFields (d.format.toList.zip d.columns) payload

/-- A field from its text. A character that stands for no type leaves the text as it is. -/
def parseField (c : Char) (raw : String) : Except LogError Value :=
  match FieldType.ofChar? c with
  | none => .ok (.text raw)
  | some type =>
    match type.parse? raw with
    | some value => .ok value
    | none => .error (.unreadable raw c)

def parseFields : List ((Char × String) × String) → Except LogError (List (String × Value))
  | [] => .ok []
  | ((c, column), raw) :: more => do
    let value ← parseField c raw
    let fields ← parseFields more
    return (column, value) :: fields

def parse (d : Definition) (values : List String) : Except LogError (List (String × Value)) :=
  if values.length ≠ d.columns.length then
    .error (.valueCount d.name d.columns.length values.length)
  else parseFields ((d.format.toList.zip d.columns).zip values)

end Definition

end DataFlash
