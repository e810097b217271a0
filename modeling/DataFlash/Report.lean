import DataFlash.Power.Flags
import DataFlash.Power.Status
import DataFlash.Sink
import DataFlash.Timestamp

namespace DataFlash

inductive ReportError where
  | read (cause : LogError)
  | write (fault : Fault)
  deriving DecidableEq, Repr

/-- The messages from an error of a report down to its cause. -/
def ReportError.chain : ReportError → List String
  | read cause => "Failed to read POWR record" :: cause.chain
  | write fault => ["Failed to write output", fault.text]

structure Report where
  sink : Sink
  /-- The lines written, unless the report ended early. -/
  result : Except ReportError Nat
  notices : List Notice

namespace Report

def changeText (names : BitNames) : BitChange → String
  | .set bit => " +" ++ names.resolve bit
  | .cleared bit => " -" ++ names.resolve bit

def diffText (names : BitNames) (d : FlagDiff) : String :=
  String.join (d.changes.map (changeText names))

def line (time : Float) (diff : String) : String := Timestamp.text time ++ ": " ++ diff

/-- How far a report has come: the mask seen last, the records read, the lines written, the output
and the notices, newest first. -/
structure Progress where
  tracker : FlagTracker := {}
  records : Nat := 0
  lines : Nat := 0
  sink : Sink
  heard : List Notice := []
  limit : Level := .trace

def Progress.finish (p : Progress) (result : Except ReportError Nat) (closing : List Notice) :
    Report :=
  { sink := p.sink, result, notices := p.heard.reverse ++ closing }

/-- The report of the power records to come, where `closing` is told after the last. -/
def proceed (names : BitNames) (closing : List Notice) (p : Progress) :
    List (List Notice × Except LogError PowerStatus) → Report
  | [] =>
    p.finish (.ok p.lines)
      (closing ++ Notice.upTo p.limit [.processed p.records p.lines] ++
        Notice.upTo p.limit [.finalFlags p.tracker.current])
  | (notices, .error e) :: _ => p.finish (.error (.read e)) notices
  | (notices, .ok status) :: rest =>
    let (diff, tracker) := p.tracker.observe status.flags
    let p := { p with
      tracker, records := p.records + 1, heard := notices.reverse ++ p.heard }
    match diff with
    | none => proceed names closing p rest
    | some d =>
      let written := Utf8.encode (line status.time (diffText names d) ++ "\n")
      match p.sink.write written with
      | (sink, true) => proceed names closing { p with sink, lines := p.lines + 1 } rest
      | (sink, false) => { p with sink }.finish (.error (.write .outputFull)) []

def changes {σ : Type} (names : BitNames) (run : Run σ PowerStatus) (sink : Sink)
    (limit : Level := .trace) : Report :=
  proceed names run.closing { sink, limit } run.steps

def announce (now : Nat) (text : String) (sink : Sink) : Sink × Except ReportError Unit :=
  match sink.write (Utf8.encode (toString now ++ ": " ++ text ++ "\n")) with
  | (sink, true) => (sink, .ok ())
  | (sink, false) => (sink, .error (.write .outputFull))

end Report

end DataFlash
