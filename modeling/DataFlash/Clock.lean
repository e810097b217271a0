import DataFlash.Feed

namespace DataFlash

/-- What is added to the seconds since boot. -/
structure Clock where
  timebase : Float := 0

namespace Clock

/-- The Unix time of 1980-01-06, where GPS weeks start. -/
def gpsEpoch : Float := 315964800

def leapSeconds : Float := 18

def secondsPerWeek : Float := 604800

def gpsToUnix (week : Int64) (weekMs : Float) : Float :=
  gpsEpoch + Float.ofInt week.toInt * secondsPerWeek + weekMs * 0.001 - leapSeconds

def bootSeconds? (r : Record) : Option Float :=
  match r.float? "TimeUS" with
  | some us => some (us * 1e-6)
  | none => (r.float? "TimeMS").map fun ms => ms * 1e-3

/-- A status from 3 on is a fix in three dimensions. -/
def fixStatus : Int64 := 3

/-- The clock that a GPS record with a fix, a week and a time since boot gives. -/
def ofGps? (r : Record) : Option Clock := do
  if r.name ≠ "GPS" then none
  let status ← r.int64? "Status"
  let week ← r.int64? "GWk"
  let weekMs ← r.float? "GMS"
  if status < fixStatus ∨ week ≤ 0 then none
  let boot ← bootSeconds? r
  some { timebase := gpsToUnix week weekMs - boot }

def timestamp? (c : Clock) (r : Record) : Option Float :=
  (bootSeconds? r).map fun boot => boot + c.timebase

def stamp (c : Clock) (r : Record) : Record := { r with timestamp := c.timestamp? r }

structure Scan (σ : Type) where
  clock : Except LogError Clock
  notices : List Notice
  next : σ

/-- The clock of the first record that gives one; without one, time since boot. -/
def scan {σ : Type} [Feed σ Record] (s : σ) (limit : Level := .trace) : Scan σ :=
  let p := Feed.find (fun r => (ofGps? r).isSome) s
  match p.item with
  | none =>
    { clock := .ok {}, notices := p.notices ++ Notice.upTo limit [.noTimebase], next := p.next }
  | some (.error e) => { clock := .error e, notices := p.notices, next := p.next }
  | some (.ok r) =>
    let clock := (ofGps? r).getD {}
    { clock := .ok clock
      notices := p.notices ++ Notice.upTo limit [.timebase clock.timebase]
      next := p.next }

end Clock

end DataFlash
