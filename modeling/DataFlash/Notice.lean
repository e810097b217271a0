import DataFlash.Definition
import DataFlash.Log.Kind

namespace DataFlash

inductive Level where
  | error
  | warn
  | info
  | debug
  | trace
  deriving DecidableEq, Repr

namespace Level

def rank : Level → Nat
  | error => 0
  | warn => 1
  | info => 2
  | debug => 3
  | trace => 4

def label : Level → String
  | error => "ERROR"
  | warn => "WARN"
  | info => "INFO"
  | debug => "DEBUG"
  | trace => "TRACE"

/-- Whether notices of `level` pass when the least important that may pass has `limit`. -/
def admits (limit level : Level) : Bool := level.rank ≤ limit.rank

end Level

inductive Notice where
  /-- Bytes that belong to no message were passed over, up to an offset. -/
  | skipped (bytes before : Nat)
  /-- The data end inside a message. -/
  | truncated (name : String) (offset present length : Nat)
  | learned (d : Definition)
  | learnedOnLine (name : String) (line : Nat)
  /-- Lines are passed over because their message is not defined. -/
  | undefined (name : String)
  /-- Lines are passed over because one has the wrong number of values. -/
  | valueCount (name : String) (expected line got : Nat)
  | timebase (seconds : Float)
  | noTimebase
  | opening (path : String)
  | detected (kind : LogKind) (bytes : Nat)
  | power (time : Option Float) (flags : Option Value)
  | processed (records changes : Nat)
  | finalFlags (flags : Option UInt32)
  | programVersion
  | libraryVersion
  | reading (kind : LogKind) (path : String)

namespace Notice

def version : String := "0.1.0"

def level : Notice → Level
  | skipped .. | undefined .. | valueCount .. => .warn
  | opening .. | processed .. | programVersion | libraryVersion => .info
  | truncated .. | timebase .. | noTimebase | detected .. | finalFlags .. | reading .. => .debug
  | learned .. | learnedOnLine .. | power .. => .trace

/-- The part of the program that a notice comes from. -/
def origin : Notice → String
  | skipped .. | truncated .. | learned .. => "flight_log_decoder::formats::bin"
  | learnedOnLine .. | undefined .. | valueCount .. => "flight_log_decoder::formats::text"
  | timebase .. | noTimebase => "flight_log_decoder::clock"
  | opening .. | detected .. => "flight_log_decoder::reader"
  | power .. => "powr_change::power"
  | processed .. | finalFlags .. => "powr_change::report"
  | programVersion | libraryVersion | reading .. => "powr_change"

def optional {α : Type} (write : α → String) : Option α → String
  | some a => "Some(" ++ write a ++ ")"
  | none => "None"

def text : Notice → String
  | skipped bytes before =>
    s!"Skipped {bytes} bytes of unframed data before offset {before}"
  | truncated name offset present length =>
    s!"Truncated {name} message at offset {offset} ({present} of {length} bytes)"
  | learned d =>
    s!"Learned format {d.name} (type {d.typeId.toNat}, {d.length} bytes): {d.format}"
  | learnedOnLine name line => s!"Learned format {name} from line {line}"
  | undefined name => s!"Skipping {name} lines: no FMT definition"
  | valueCount name expected line got =>
    s!"Skipping {name} lines: expected {expected} fields, line {line} has {got}"
  | timebase seconds => "GPS time base found: " ++ fixedText 3 seconds
  | noTimebase => "No GPS time base in log, using time since boot"
  | opening path => "Opening log file: " ++ Text.quoted path
  | detected kind bytes => s!"Detected {kind.label} log ({bytes} bytes)"
  | power time flags =>
    "POWR at " ++ optional Layout.message.text time ++ ": Flags=" ++
      optional Value.labelled flags
  | processed records changes => s!"Processed {records} POWR records, {changes} flag changes"
  | finalFlags flags => "Final flags: " ++ optional (fun n => toString n.toNat) flags
  | programVersion => "POWR Change CLI v" ++ version
  | libraryVersion => "Using decoder library v" ++ version
  | reading kind path => s!"Reading {kind.label} log " ++ Text.quoted path

/-- The notices that pass a limit, in order. -/
def upTo (limit : Level) (notices : List Notice) : List Notice :=
  notices.filter fun n => limit.admits n.level

theorem upTo_append (limit : Level) (notices later : List Notice) :
    upTo limit (notices ++ later) = upTo limit notices ++ upTo limit later := List.filter_append ..

theorem upTo_reverse (limit : Level) (notices : List Notice) :
    upTo limit notices.reverse = (upTo limit notices).reverse := List.filter_reverse

@[simp] theorem upTo_trace (notices : List Notice) : upTo .trace notices = notices := by
  refine List.filter_eq_self.mpr fun n _ => ?_
  cases n.level <;> rfl

end Notice

end DataFlash
