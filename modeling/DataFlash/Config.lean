namespace DataFlash

inductive ClockMode where
  /-- Unix time from the first usable GPS record. -/
  | gpsInterpolated
  /-- Time since boot. -/
  | boot
  deriving DecidableEq, Repr

namespace ClockMode

def name : ClockMode → String
  | gpsInterpolated => "gps_interpolated"
  | boot => "boot"

def ofName? (s : String) : Option ClockMode :=
  [gpsInterpolated, boot].find? fun mode => mode.name == s

end ClockMode

/-- A settings document. -/
inductive Settings where
  | null
  | text (s : String)
  | list (items : List Settings)
  | group (entries : List (String × Settings))
  /-- Any other value, which no setting has. -/
  | other
  deriving Inhabited

structure Config where
  /-- The names of the records that are yielded; all names if there is no list. -/
  typeFilter : Option (List String) := none
  clock : ClockMode := .gpsInterpolated
  deriving DecidableEq, Repr

namespace Config

def withTypeFilter (c : Config) (names : List String) : Config :=
  { c with typeFilter := some names }

def withClock (c : Config) (mode : ClockMode) : Config := { c with clock := mode }

def admits (c : Config) (name : String) : Bool :=
  match c.typeFilter with
  | some names => names.contains name
  | none => true

def names? : List Settings → Option (List String)
  | [] => some []
  | .text s :: rest => (names? rest).map (s :: ·)
  | _ => none

def typeFilter? : Option Settings → Option (Option (List String))
  | none | some .null => some none
  | some (.list items) => (names? items).map some
  | _ => none

/-- The clock is missing or the name of a mode, alone or with null under it. -/
def clock? : Option Settings → Option ClockMode
  | none => some .gpsInterpolated
  | some (.text s) | some (.group [(s, .null)]) => ClockMode.ofName? s
  | _ => none

def ofParts? (filter mode : Option Settings) : Option Config := do
  let typeFilter ← typeFilter? filter
  let clock ← clock? mode
  some { typeFilter, clock }

/-- The configuration that a document gives. Settings are found by name, and other names in it do
not matter; or they are the items of a list, the filter before the clock. -/
def ofSettings? : Settings → Option Config
  | .group entries => ofParts? (entries.lookup "type_filter") (entries.lookup "clock")
  | .list [] => ofParts? none none
  | .list [filter] => ofParts? (some filter) none
  | .list [filter, mode] => ofParts? (some filter) (some mode)
  | _ => none

def toSettings (c : Config) : Settings :=
  .group [
    ("type_filter", match c.typeFilter with
      | some names => .list (names.map .text)
      | none => .null),
    ("clock", .text c.clock.name)]

end Config

end DataFlash
