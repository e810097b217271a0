namespace DataFlash

inductive BitChange where
  | set (bit : Nat)
  | cleared (bit : Nat)
  deriving DecidableEq, Repr

def BitChange.bit : BitChange → Nat
  | set bit | cleared bit => bit

def flagBits : Nat := 32

structure FlagDiff where
  previous : UInt32
  current : UInt32
  deriving DecidableEq, Repr

namespace FlagDiff

def change? (d : FlagDiff) (bit : Nat) : Option BitChange :=
  match d.previous.toBitVec.getLsbD bit, d.current.toBitVec.getLsbD bit with
  | false, true => some (.set bit)
  | true, false => some (.cleared bit)
  | _, _ => none

/-- The bits that differ, in ascending order. -/
def changes (d : FlagDiff) : List BitChange := (List.range flagBits).filterMap d.change?

end FlagDiff

structure FlagTracker where
  current : Option UInt32 := none
  deriving DecidableEq, Repr

/-- A new mask and how it differs from the one before, which is 0 for the first. -/
def FlagTracker.observe (t : FlagTracker) (flags : UInt32) : Option FlagDiff × FlagTracker :=
  let previous := t.current.getD 0
  let diff := if previous = flags then none else some { previous, current := flags }
  (diff, { current := some flags })

structure BitNames where
  names : Vector (Option String) flagBits
  deriving DecidableEq, Repr

namespace BitNames

def empty : BitNames := { names := Vector.replicate flagBits none }

/-- A table with one more name. There is no place for a bit past the last. -/
def withName (t : BitNames) (bit : Nat) (name : String) : BitNames :=
  { names := t.names.setIfInBounds bit (some name) }

def name? (t : BitNames) (bit : Nat) : Option String := t.names[bit]?.join

def resolve (t : BitNames) (bit : Nat) : String :=
  (t.name? bit).getD s!"UNKNOWN_BIT[{bit}]"

def powerStatus : BitNames :=
  empty
    |>.withName 0 "MAV_POWER_STATUS_BRICK_VALID"
    |>.withName 1 "MAV_POWER_STATUS_SERVO_VALID"
    |>.withName 2 "MAV_POWER_STATUS_USB_CONNECTED"
    |>.withName 3 "MAV_POWER_STATUS_PERIPH_OVERCURRENT"
    |>.withName 4 "MAV_POWER_STATUS_PERIPH_HIPOWER_OVERCURRENT"
    |>.withName 5 "MAV_POWER_STATUS_CHANGED"

end BitNames

end DataFlash
