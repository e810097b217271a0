import DataFlash.Feed
import DataFlash.Table

namespace DataFlash

inductive LineReading where
  | blank
  /-- The line defines a message. -/
  | defines (d : Definition) (r : Record)
  | data (r : Record)
  /-- The line has no definition or the wrong number of values. -/
  | passedOver (name : String) (reason : Notice)
  | refused (e : LogError)

/-- A text log and how far it is read: `rest` are its lines after the first `line`. A name in `told`
has been given as the reason for passing lines over, and is not given again, even if the limit let
nothing be told. -/
structure TextLog where
  source : List (List Char)
  line : Nat
  rest : List (List Char)
  table : Table String
  told : List String
  limit : Level := .trace

namespace TextLog

def ofLines (source : List (List Char)) (limit : Level := .trace) : TextLog :=
  { source, line := 0, rest := source, table := {}, told := [], limit }

def ofBytes (bytes : List UInt8) (limit : Level := .trace) : TextLog :=
  ofLines (Text.lines (Utf8.decode bytes)) limit

/-- The same log from its start, with nothing learned. What has been told stays told. -/
def rewind (l : TextLog) : TextLog := { l with line := 0, rest := l.source, table := {} }

def definitionNumber (line : Nat) (raw : String) : Except LogError UInt64 :=
  match Numeral.unsigned? raw.toList with
  | some n => .ok n
  | none => .error (.definitionNumber line raw)

/-- The definition on a line and the record of it. The columns are all values after the fourth. -/
def readDefinition (line : Nat) : List String → Except LogError (Definition × Record)
  | type :: length :: name :: format :: column :: more => do
    let typeId ← definitionNumber line type
    let length ← definitionNumber line length
    let columns := ",".intercalate (column :: more)
    if 256 ≤ typeId.toNat then throw (.definitionType line typeId.toNat)
    let d ← Definition.ofParts typeId.toUInt8 length.toNat name format columns
    return (d, { name := "FMT", fields := [("Type", .uint typeId), ("Length", .uint length),
      ("Name", .text name), ("Format", .text format), ("Columns", .text columns)] })
  | values => .error (.definitionTooShort line values.length)

def readData (d : Definition) (line : Nat) (name : String) (values : List String) : LineReading :=
  if values.length ≠ d.columns.length then
    .passedOver name (.valueCount name d.columns.length line values.length)
  else
    match d.parse values with
    | .ok fields => .data { name, fields }
    | .error e => .refused (.onLine line e)

def readLine (table : Table String) (line : Nat) (text : List Char) : LineReading :=
  match Text.parts text with
  | [] | [[]] => .blank
  | part :: more =>
    let name := String.ofList part
    let values := more.map String.ofList
    if name = "FMT" then
      match readDefinition line values with
      | .ok (d, r) => .defines d r
      | .error e => .refused e
    else
      match table.get? name with
      | none => .passedOver name (.undefined name)
      | some d => readData d line name values

/-- The next line that yields something, after the notices in `heard`, newest first. -/
def advance (l : TextLog) (heard : List Notice) : List (List Char) → Pull TextLog Record
  | [] => { item := none, notices := heard.reverse, next := { l with rest := [] } }
  | text :: rest =>
    let line := l.line + 1
    let l := { l with line, rest }
    match readLine l.table line text with
    | .blank => advance l heard rest
    | .passedOver name reason =>
      if name ∈ l.told then advance l heard rest
      else advance { l with told := name :: l.told } (Notice.upTo l.limit [reason] ++ heard) rest
    | .data r => { item := some (.ok r), notices := heard.reverse, next := l }
    | .defines d r =>
      { item := some (.ok r)
        notices := (Notice.upTo l.limit [.learnedOnLine d.name line] ++ heard).reverse
        next := { l with table := l.table.insert d.name d } }
    | .refused e => { item := some (.error e), notices := heard.reverse, next := l }

def pull (l : TextLog) : Pull TextLog Record := advance l [] l.rest

/-- A line that yields something is used up. -/
theorem length_advance_lt (l : TextLog) (heard : List Notice) (rest : List (List Char))
    (h : (advance l heard rest).item.isSome) :
    (advance l heard rest).next.rest.length < rest.length := by
  induction rest generalizing l heard with
  | nil => simp [advance] at h
  | cons text rest ih =>
    unfold advance at h ⊢
    cases hr : readLine l.table (l.line + 1) text with
    | blank =>
      simp only [hr] at h ⊢
      exact Nat.lt_succ_of_lt (ih _ _ h)
    | passedOver name reason =>
      by_cases ht : name ∈ l.told
      · simp only [hr, ht, if_true] at h ⊢
        exact Nat.lt_succ_of_lt (ih _ _ h)
      · simp only [hr, ht, if_false] at h ⊢
        exact Nat.lt_succ_of_lt (ih _ _ h)
    | data r =>
      simp only [hr]
      exact Nat.lt_succ_self _
    | defines d r =>
      simp only [hr]
      exact Nat.lt_succ_self _
    | refused e =>
      simp only [hr]
      exact Nat.lt_succ_self _

instance : Feed TextLog Record where
  pull := pull
  remaining l := l.rest.length
  remaining_lt l h := length_advance_lt l [] l.rest h

end TextLog

end DataFlash
