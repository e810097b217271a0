import DataFlash.Log.Binary
import DataFlash.Log.Text

namespace DataFlash

inductive Log where
  | binary (l : BinaryLog)
  | text (l : TextLog)

namespace Log

def ofBytes (bytes : List UInt8) (kind : LogKind) (limit : Level := .trace) : Log :=
  match kind with
  | .binary => .binary (BinaryLog.ofBytes bytes limit)
  | .text => .text (TextLog.ofBytes bytes limit)

def limit : Log → Level
  | binary l => l.limit
  | text l => l.limit

def rewind : Log → Log
  | binary l => .binary l.rewind
  | text l => .text l.rewind

def pull : Log → Pull Log Record
  | binary l => { l.pull with next := .binary l.pull.next }
  | text l => { l.pull with next := .text l.pull.next }

def remaining : Log → Nat
  | binary l => l.rest.length
  | text l => l.rest.length

instance : Feed Log Record where
  pull := pull
  remaining := remaining
  remaining_lt
    | binary l, h => BinaryLog.length_pull_lt l h
    | text l, h => TextLog.length_advance_lt l [] l.rest h

end Log

end DataFlash
