import DataFlash.Reader

namespace DataFlash

structure PowerStatus where
  flags : UInt32
  time : Float

namespace PowerStatus

def recordName : String := "POWR"

def ofRecord (r : Record) : Except LogError PowerStatus := do
  match (← r.require "Flags").toMask? with
  | some flags => return { flags, time := r.time }
  | none => throw (.flagsNotInteger r.name)

end PowerStatus

structure PowerFeed where
  reader : Reader

namespace PowerFeed

/-- The next power record. One without usable flags is an error. -/
def pull (f : PowerFeed) : Pull PowerFeed PowerStatus :=
  let p := f.reader.receive PowerStatus.recordName
  let seen : List Notice := match p.item with
    | some (.ok r) => [.power r.timestamp (r.get? "Flags")]
    | _ => []
  { item := p.item.map fun item => item.bind PowerStatus.ofRecord
    notices := p.notices ++ Notice.upTo f.reader.log.limit seen
    next := { reader := p.next } }

instance : Feed PowerFeed PowerStatus where
  pull := pull
  remaining f := f.reader.log.remaining
  remaining_lt f h :=
    Reader.remaining_find_lt (· == PowerStatus.recordName) f.reader
      (by simpa [pull, Reader.receive] using h)

end PowerFeed

end DataFlash
