import DataFlash.CommandLine
import DataFlash.Report
import DataFlash.Text.Controls

namespace DataFlash

structure Outcome where
  exit : Nat
  stdout : String
  stderr : String := ""
  deriving DecidableEq, Repr

namespace Program

def helpText : String :=
"Parse a log file and show how the power flags changed over time

Usage: powr-change [OPTIONS] [LOG]

Arguments:
  [LOG]  Path to the DataFlash log (.bin or .log)

Options:
  -v, --verbose...  Verbosity level for diagnostics on stderr (can be repeated: -v, -vv, -vvv)
  -q, --quiet       Suppress all diagnostics except errors
  -h, --help        Print help
  -V, --version     Print version
"

def versionText : String := "powr-change " ++ Notice.version ++ "\n"

/-- A notice as the logger prints it without the time, where its output is no terminal: level and
origin in brackets, then the words. Names in the words come from the log, so control sequences are
left out; one that does not end takes the end of the line with it. -/
def noticeLine (n : Notice) : String :=
  Text.withoutControls ("[" ++ n.level.label ++ " " ++ n.origin ++ "] " ++ n.text ++ "\n")

def indented (width : Nat) (text : String) : String :=
  String.ofList <| text.toList.flatMap fun c =>
    if c = '\n' then '\n' :: List.replicate width ' ' else [c]

def numberedCause (cause : String × Nat) : String :=
  "\n    " ++ toString cause.2 ++ ": " ++ indented 7 cause.1

/-- A failure and what caused it, as the chain of an error is printed when a program ends with it:
one cause on a line, and several causes numbered. -/
def failureText : List String → String
  | [] => ""
  | [failure] => "Error: " ++ failure ++ "\n"
  | [failure, cause] =>
    "Error: " ++ failure ++ "\n\nCaused by:\n    " ++ indented 4 cause ++ "\n"
  | failure :: causes =>
    "Error: " ++ failure ++ "\n\nCaused by:" ++ String.join (causes.zipIdx.map numberedCause) ++
      "\n"

structure Session where
  stdout : String
  failure : List String
  notices : List Notice

/-- The report of the log at a path, under a line with the current time, where only notices up to a
limit are given. -/
def session (path : String) (contents : Except Fault (List UInt8)) (now : Nat)
    (limit : Level := .trace) : Session :=
  let (sink, _) := Report.announce now "Creating connection" {}
  let reader := Reader.ofFile path contents {} limit
  let notices := Notice.upTo limit [.programVersion] ++ Notice.upTo limit [.libraryVersion] ++
    reader.notices
  match reader.value with
  | .error e =>
    { stdout := sink.text
      failure := ("Failed to open log file: " ++ Text.quoted path) :: e.chain
      notices }
  | .ok r =>
    let report :=
      Report.changes BitNames.powerStatus (Feed.run { reader := r : PowerFeed }) sink limit
    { stdout := report.sink.text
      failure := match report.result with
        | .ok _ => []
        | .error e => e.chain
      notices := notices ++ Notice.upTo limit [.reading r.kind path] ++ report.notices }

def Session.outcome (s : Session) : Outcome :=
  { exit := if s.failure.isEmpty then 0 else 1
    stdout := s.stdout
    stderr := String.join (s.notices.map noticeLine) ++ failureText s.failure }

/-- What the program does for a request, where `read` gives the contents of a file. -/
def run (request : Request) (read : String → Except Fault (List UInt8)) (now : Nat) : Outcome :=
  match request with
  | .help => { exit := 0, stdout := helpText }
  | .nothing => { exit := 1, stdout := helpText }
  | .version => { exit := 0, stdout := versionText }
  | .refused => { exit := 2, stdout := "" }
  | .report path limit => (session path (read path) now limit).outcome

end Program

end DataFlash
