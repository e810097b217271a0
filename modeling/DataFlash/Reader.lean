import DataFlash.Clock
import DataFlash.Config
import DataFlash.Log

namespace DataFlash

structure Noted (α : Type) where
  value : α
  notices : List Notice

structure Reader where
  kind : LogKind
  config : Config
  clock : Clock
  log : Log

namespace Reader

/-- A reader at the start of a log. Unless times count from boot, the log is read once for a time
base; an error before that is found prevents the reading. -/
def ofBytes (bytes : List UInt8) (kind : LogKind) (config : Config) (limit : Level := .trace) :
    Noted (Except LogError Reader) :=
  let log := Log.ofBytes bytes kind limit
  match config.clock with
  | .boot => { value := .ok { kind, config, clock := {}, log }, notices := [] }
  | .gpsInterpolated =>
    let scan := Clock.scan log limit
    { value := scan.clock.map fun clock => { kind, config, clock, log := scan.next.rewind }
      notices := scan.notices }

/-- A reader of the contents of the file at a path, unless they cannot be read. -/
def ofFile (path : String) (contents : Except Fault (List UInt8)) (config : Config)
    (limit : Level := .trace) : Noted (Except LogError Reader) :=
  let opening := Notice.upTo limit [.opening path]
  match contents with
  | .error fault => { value := .error (.io fault), notices := opening }
  | .ok bytes =>
    match LogKind.detect path bytes with
    | .error e => { value := .error e, notices := opening }
    | .ok kind =>
      let reader := ofBytes bytes kind config limit
      { reader with
        notices := opening ++ Notice.upTo limit [.detected kind bytes.length] ++ reader.notices }

def find (keep : String → Bool) (r : Reader) : Pull Reader Record :=
  let p := Feed.find (fun record : Record => keep record.name) r.log
  { item := p.item.map (Except.map r.clock.stamp)
    notices := p.notices
    next := { r with log := p.next } }

/-- The next record that the configuration admits. -/
def next (r : Reader) : Pull Reader Record := r.find r.config.admits

/-- The next record of a name, whatever the configuration admits. -/
def receive (name : String) (r : Reader) : Pull Reader Record := r.find (· == name)

def rewind (r : Reader) : Reader := { r with log := r.log.rewind }

theorem remaining_find_lt (keep : String → Bool) (r : Reader) (h : (r.find keep).item.isSome) :
    (r.find keep).next.log.remaining < r.log.remaining :=
  Feed.remaining_find_lt (fun record : Record => keep record.name) r.log (by simpa [find] using h)

instance : Feed Reader Record where
  pull := next
  remaining r := r.log.remaining
  remaining_lt r h := remaining_find_lt r.config.admits r h

end Reader

structure Messages where
  name : String
  reader : Reader

def Reader.messages (r : Reader) (name : String) : Messages := { name, reader := r }

namespace Messages

def pull (m : Messages) : Pull Messages Record :=
  let p := m.reader.receive m.name
  { item := p.item, notices := p.notices, next := { m with reader := p.next } }

instance : Feed Messages Record where
  pull := pull
  remaining m := m.reader.log.remaining
  remaining_lt m h := Reader.remaining_find_lt (· == m.name) m.reader h

end Messages

end DataFlash
