import DataFlash.Text.Utf8

namespace DataFlash.Text

/-- What has been read of a sequence that has not ended. -/
inductive Sequence where
  /-- The escape character. -/
  | escape
  /-- An escape sequence that waits for its final character. -/
  | designation
  /-- A control sequence, which starts with `[`. -/
  | control
  /-- The start of a device control string. -/
  | device
  /-- A device control string up to its parameters. -/
  | parameters
  /-- A device control string whose parameters have ended and whose data have not begun. -/
  | intermediates
  /-- An operating system command, which a bell ends. -/
  | command
  /-- Any other string, and the data of a device control string. -/
  | string
  deriving DecidableEq, Repr

inductive Scan where
  | plain
  | within (s : Sequence)
  /-- White space inside a sequence is shown, and so is what follows it up to the next control
  character, at which the sequence goes on unless a character outside ASCII stood between. -/
  | suspended (s : Sequence)
  deriving DecidableEq, Repr

def isLayout (c : Char) : Bool := c = '\t' || c = '\n' || c = '\x0c' || c = '\r'

/-- All characters but U+007F and the controls below U+0020 that are no white space. -/
def isVisible (c : Char) : Bool := isLayout c || (' ' ≤ c && c ≠ '\x7f')

/-- Whether the last byte of the string terminator is among the bytes of a character. -/
def holdsTerminator (c : Char) : Bool := (Utf8.encode (String.singleton c)).contains 0x9C

namespace Sequence

/-- Whether white space suspends a sequence. Strings take it in. -/
def yieldsToLayout : Sequence → Bool
  | escape | designation | control => true
  | _ => false

def afterEscape (c : Char) : Option Sequence :=
  if c < ' ' ∨ '~' < c then some escape
  else if c ≤ '/' then some designation
  else match c with
    | '[' => some control
    | 'P' => some device
    | ']' => some command
    | 'X' | '^' | '_' => some string
    | _ => none

/-- The head of a device control string after one more character, where a digit, `:` or `;` leads to
`digit` and a character from `<` to `?` leads to `mark`. -/
def afterDevice (s digit mark : Sequence) (c : Char) : Sequence :=
  if c < ' ' ∨ '~' < c then s
  else if c ≤ '/' then intermediates
  else if c ≤ ';' then digit
  else if c ≤ '?' then mark
  else string

def next (s : Sequence) (c : Char) : Option Sequence :=
  match s with
  | escape => afterEscape c
  | designation => if '0' ≤ c ∧ c ≤ '~' then none else some designation
  | control => if '@' ≤ c ∧ c ≤ '~' then none else some control
  | device => some (afterDevice device parameters parameters c)
  | parameters => some (afterDevice parameters parameters string c)
  | intermediates => some (afterDevice intermediates string string c)
  | command => if c = '\x07' then none else some command
  | string => if holdsTerminator c then none else some string

end Sequence

namespace Scan

def ofSequence : Option Sequence → Scan
  | some s => within s
  | none => plain

/-- Whether a character is shown, and where the reader stands after it. Cancel and substitute end
every sequence, and an escape character starts another one. -/
def step (scan : Scan) (c : Char) : Bool × Scan :=
  if c = '\x18' ∨ c = '\x1a' then (false, plain)
  else if c = '\x1b' then (false, within .escape)
  else match scan with
    | plain => (isVisible c, plain)
    | suspended s =>
      if '\x7f' < c then (true, plain)
      else if isVisible c then (true, suspended s)
      else (false, within s)
    | within s =>
      if s.yieldsToLayout && isLayout c then (true, suspended s)
      else (false, ofSequence (s.next c))

def shown (scan : Scan) : List Char → List Char
  | [] => []
  | c :: rest =>
    let (isShown, next) := scan.step c
    if isShown then c :: shown next rest else shown next rest

end Scan

def withoutControls (text : String) : String := String.ofList (Scan.plain.shown text.toList)

end DataFlash.Text
