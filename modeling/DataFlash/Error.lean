namespace DataFlash

inductive ErrorKind where
  | malformed
  | unsupported
  | missingField
  | invalid
  | io
  deriving DecidableEq, Repr

def ErrorKind.heading : ErrorKind → String
  | malformed => "Failed to parse log file: "
  | unsupported => "Unsupported log format: "
  | missingField => "Field not found: "
  | invalid => "Invalid data: "
  | io => "IO error: "

inductive Fault where
  | endOfData
  | notFound
  | notDirectory
  | isDirectory
  | nameTooLong
  | nulInPath
  | outputFull
  | told (text : String)
  deriving DecidableEq, Repr

def Fault.text : Fault → String
  | endOfData => "failed to fill whole buffer"
  | notFound => "No such file or directory (os error 2)"
  | notDirectory => "Not a directory (os error 20)"
  | isDirectory => "Is a directory (os error 21)"
  | nameTooLong => "File name too long (os error 36)"
  | nulInPath => "file name contained an unexpected NUL byte"
  | outputFull => "output full"
  | told text => text

inductive LogError where
  /-- A definition uses a character that stands for no field type. -/
  | unknownCharacter (c : Char) (name : String)
  /-- A definition has more or fewer columns than characters. -/
  | columnCount (name : String) (characters columns : Nat)
  /-- A definition declares fewer bytes than its fields take. -/
  | lengthTooSmall (name : String) (declared needed : Nat)
  /-- A field to be decoded has no type. -/
  | undecodable (c : Char)
  /-- A line that defines a message has too few values. -/
  | definitionTooShort (line values : Nat)
  /-- A type id or length is no number. -/
  | definitionNumber (line : Nat) (raw : String)
  /-- A type id does not fit in a byte. -/
  | definitionType (line : Nat) (typeId : Nat)
  /-- The values of a line do not have the types of their fields. -/
  | onLine (line : Nat) (cause : LogError)
  /-- The log is neither binary nor text; its path is quoted. -/
  | unrecognized (path : String)
  | missingField (message column : String)
  /-- A column of a record that defines a message is no number. -/
  | notNumeric (column : String)
  | typeNotByte
  | negativeLength
  | valueCount (name : String) (expected got : Nat)
  /-- A text is no number of the type its field has. -/
  | unreadable (raw : String) (c : Char)
  /-- The flags of a power record are no number. -/
  | flagsNotInteger (name : String)
  | io (fault : Fault)
  | told (kind : ErrorKind) (text : String)
  deriving DecidableEq, Repr

namespace LogError

def kind : LogError → ErrorKind
  | unknownCharacter .. | columnCount .. | lengthTooSmall .. | undecodable .. => .malformed
  | definitionTooShort .. | definitionNumber .. | definitionType .. | onLine .. => .malformed
  | unrecognized .. => .unsupported
  | missingField .. => .missingField
  | notNumeric .. | typeNotByte | negativeLength => .invalid
  | valueCount .. | unreadable .. | flagsNotInteger .. => .invalid
  | io .. => .io
  | told kind _ => kind

def detail : LogError → String
  | unknownCharacter c name => s!"Unknown format character '{c}' in FMT for {name}"
  | columnCount name characters columns =>
    s!"FMT for {name} has {characters} format characters but {columns} columns"
  | lengthTooSmall name declared needed =>
    s!"FMT for {name} declares length {declared} but its fields need {needed}"
  | undecodable c => s!"Unknown format character '{c}'"
  | definitionTooShort line values =>
    s!"Line {line}: FMT needs at least 5 fields, got {values}"
  | definitionNumber line raw => s!"Line {line}: bad FMT number '{raw}'"
  | definitionType line typeId => s!"Line {line}: FMT type {typeId} out of range"
  | onLine line cause => s!"Line {line}: " ++ cause.kind.heading ++ cause.detail
  | unrecognized path => s!"{path} is neither a binary nor a text DataFlash log"
  | missingField message column => s!"{column} in {message}"
  | notNumeric column => s!"FMT {column} is not numeric"
  | typeNotByte => "FMT Type does not fit in a byte"
  | negativeLength => "FMT Length is negative"
  | valueCount name expected got => s!"{name} expects {expected} fields, got {got}"
  | unreadable raw c => s!"cannot parse '{raw}' as '{c}' field"
  | flagsNotInteger name => s!"{name} Flags is not an integer"
  | io fault => fault.text
  | told _ text => text

def message (e : LogError) : String := e.kind.heading ++ e.detail

/-- The messages from an error down to its cause. A fault of input or output is the cause of the
error that reports it. -/
def chain (e : LogError) : List String :=
  match e.kind with
  | .io => [e.message, e.detail]
  | _ => [e.message]

end LogError

end DataFlash
