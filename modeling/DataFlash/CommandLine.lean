import DataFlash.Notice

namespace DataFlash

inductive Request where
  /-- Help was asked for. -/
  | help
  | version
  /-- An argument cannot be accepted. -/
  | refused
  /-- No log is given. -/
  | nothing
  /-- A report of a log, with the notices up to a level. -/
  | report (log : String) (limit : Level)
  deriving DecidableEq, Repr

namespace CommandLine

structure Options where
  verbose : Nat := 0
  quiet : Bool := false
  log : Option String := none
  deriving DecidableEq, Repr

def Options.limit (o : Options) : Level :=
  if o.quiet then .error
  else match o.verbose with
    | 0 => .warn
    | 1 => .info
    | 2 => .debug
    | _ => .trace

inductive Flag where
  | verbose
  | quiet
  | help
  | version
  deriving DecidableEq, Repr

def Flag.ofLetter? : Char → Option Flag
  | 'v' => some .verbose
  | 'q' => some .quiet
  | 'h' => some .help
  | 'V' => some .version
  | _ => none

def Flag.ofWord? (word : String) : Option Flag :=
  if word = "verbose" then some .verbose
  else if word = "quiet" then some .quiet
  else if word = "help" then some .help
  else if word = "version" then some .version
  else none

/-- The options after one more flag. Quiet may be asked for once. -/
def Options.apply (o : Options) : Option Flag → Except Request Options
  | some .verbose => .ok { o with verbose := o.verbose + 1 }
  | some .quiet => if o.quiet then .error .refused else .ok { o with quiet := true }
  | some .help => .error .help
  | some .version => .error .version
  | none => .error .refused

/-- There is one log, and its path is not empty. -/
def Options.setLog (o : Options) (path : String) : Except Request Options :=
  if o.log.isSome ∨ path = "" then .error .refused else .ok { o with log := some path }

/-- One argument in front of the end of options. A single dash is a path. -/
def Options.read (o : Options) (argument : String) : Except Request Options :=
  match argument.toList with
  | '-' :: '-' :: word => o.apply (Flag.ofWord? (String.ofList word))
  | '-' :: c :: letters => (c :: letters).foldlM (fun o c => o.apply (Flag.ofLetter? c)) o
  | _ => o.setLog argument

/-- All arguments. After `--` every argument is a path. -/
def Options.readAll (o : Options) : List String → Except Request Options
  | [] => .ok o
  | argument :: rest =>
    if argument = "--" then rest.foldlM Options.setLog o
    else match o.read argument with
      | .ok o => o.readAll rest
      | .error request => .error request

/-- What arguments ask for, by the usual rules of option parsers: they are read in order, letters
may share a dash, and the first argument that asks for help or the version or cannot be accepted
decides. Names are not abbreviated. -/
def request (arguments : List String) : Request :=
  match Options.readAll {} arguments with
  | .error request => request
  | .ok o => match o.log with
    | none => .nothing
    | some log => .report log o.limit

end CommandLine

end DataFlash
