import DataFlash.Error
import DataFlash.Path
import DataFlash.Text.Quoted

namespace DataFlash

inductive LogKind where
  | binary
  | text
  deriving DecidableEq, Repr

namespace LogKind

def label : LogKind → String
  | binary => "Binary"
  | text => "Text"

/-- The two bytes that start every binary message. -/
def sync : List UInt8 := [0xA3, 0x95]

/-- The bytes that start a text log: its first line defines a message. -/
def textStart : List UInt8 := [0x46, 0x4D, 0x54, 0x2C]

def ofBytes? (bytes : List UInt8) : Option LogKind :=
  if sync.isPrefixOf bytes then some binary
  else if textStart.isPrefixOf bytes then some text
  else none

/-- The kind that an extension names, in any mixture of cases. -/
def ofExtension? (extension : List Char) : Option LogKind :=
  let word := String.ofList (extension.map Char.toLower)
  if word = "bin" ∨ word = "px4log" then some binary
  else if word = "log" ∨ word = "txt" then some text
  else none

def detect (path : String) (bytes : List UInt8) : Except LogError LogKind :=
  match ((Path.extension? path).bind ofExtension?).or (ofBytes? bytes) with
  | some kind => .ok kind
  | none => .error (.unrecognized (Text.quoted path))

end LogKind

end DataFlash
