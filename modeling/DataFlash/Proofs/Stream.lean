import DataFlash.Proofs.Opening

namespace DataFlash

def Value.isNumber : Value → Bool
  | int _ | uint _ | float _ => true
  | text _ | array _ => false

namespace Record

def untimed (r : Record) : Record := { r with timestamp := none }

/-- Whether the first field of a column holds a number. -/
def hasNumber (r : Record) (column : String) : Bool := (r.get? column).any Value.isNumber

theorem isSome_bind_get? {α : Type} {read : Value → Option α}
    (h : ∀ v, (read v).isSome = v.isNumber) (r : Record) (column : String) :
    ((r.get? column).bind read).isSome = r.hasNumber column := by
  unfold hasNumber
  cases r.get? column with
  | none => rfl
  | some v => exact h v

theorem isSome_float? (r : Record) (column : String) :
    (r.float? column).isSome = r.hasNumber column :=
  isSome_bind_get? (fun v => by cases v <;> rfl) r column

end Record

namespace Clock

theorem timestamp?_eq_none {clock : Clock} {r : Record} :
    clock.timestamp? r = none ↔
      r.hasNumber "TimeUS" = false ∧ r.hasNumber "TimeMS" = false := by
  rw [← Record.isSome_float?, ← Record.isSome_float?]
  unfold timestamp? bootSeconds?
  cases r.float? "TimeUS" <;> simp

end Clock

namespace Reader

def withFilter (filter : Option (List String)) (r : Reader) : Reader :=
  { r with config := { r.config with typeFilter := filter } }

/-- The items that a reader has still to give, where no filter holds any back. -/
def stream (r : Reader) : List (Except LogError Record) := Feed.results (r.withFilter none)

theorem on_self (r : Reader) :
    r.On r.config r.clock { all := r.log.whole, rest := Feed.results r.log } :=
  ⟨rfl, rfl, rfl, rfl⟩

theorem stream_eq (r : Reader) :
    r.stream = (Feed.results r.log).map (Except.map r.clock.stamp) := by
  have hrun := ((r.withFilter none).on_self).run.1
  have hall : ∀ item ∈ Feed.results (r.withFilter none).log,
      Feed.stops (((r.withFilter none).config).admits ·.name) item = true := by
    intro item _
    cases item <;> rfl
  dsimp only at hrun
  rw [List.filter_eq_self.mpr hall] at hrun
  exact hrun

theorem stops_stamp (keep : String → Bool) (clock : Clock) (item : Except LogError Record) :
    Feed.stops (fun record => keep record.name) (item.map clock.stamp) =
      Feed.stops (fun record => keep record.name) item := by
  cases item <;> rfl

theorem find_item_stream (keep : String → Bool) (r : Reader) :
    (r.find keep).item = r.stream.find? (Feed.stops fun record => keep record.name) := by
  have hstops : Feed.stops (fun record : Record => keep record.name) ∘ Except.map r.clock.stamp =
      Feed.stops fun record => keep record.name := by
    funext item
    exact stops_stamp keep r.clock item
  rw [stream_eq, List.find?_map, hstops]
  exact (r.on_self.find keep).1

theorem stream_find (keep : String → Bool) (r : Reader) :
    (r.find keep).next.stream =
      (r.stream.dropWhile (!Feed.stops (fun record => keep record.name) ·)).tail := by
  have hpasses : (fun item => !Feed.stops (fun record : Record => keep record.name) item) ∘
      Except.map r.clock.stamp = (!Feed.stops (fun record => keep record.name) ·) := by
    funext item
    exact congrArg _ (stops_stamp keep r.clock item)
  rw [stream_eq, (r.on_self.find keep).2.rest, stream_eq, List.dropWhile_map, hpasses,
    ← List.map_tail]
  rfl

/-- A feed of what a reader finds by name: all that is still to come and is kept. -/
theorem results_search {σ β : Type} [Feed σ β] (reader : σ → Reader) (keep : String → Bool)
    (read : Except LogError Record → Except LogError β) {P : σ → Prop}
    (step : ∀ s, P s → (Feed.pull s).item = ((reader s).find keep).item.map read ∧
      reader (Feed.pull s).next = ((reader s).find keep).next ∧ P (Feed.pull s).next)
    {s : σ} (h : P s) :
    Feed.results s =
      ((reader s).stream.filter (Feed.stops fun record => keep record.name)).map read := by
  induction s using Feed.run_induction with
  | ended s hnone =>
    obtain ⟨hitem, -, -⟩ := step s h
    rw [hnone, find_item_stream] at hitem
    have hfind := Option.map_eq_none_iff.mp hitem.symm
    rw [Feed.results_none hnone, List.filter_eq_nil_iff.mpr (List.find?_eq_none.mp hfind),
      List.map_nil]
  | pulled s item hsome ih =>
    obtain ⟨hitem, hnext, hkept⟩ := step s h
    rw [hsome, find_item_stream] at hitem
    obtain ⟨first, hfind, hfirst⟩ := Option.map_eq_some_iff.mp hitem.symm
    have htape := Tape.find_some (t := { all := [], rest := (reader s).stream }) hfind
    rw [Feed.results_some hsome, ih hkept, hnext, stream_find]
    dsimp only at htape
    rw [htape, List.map_cons, hfirst]
    rfl

theorem results_eq (r : Reader) :
    Feed.results r = r.stream.filter (Feed.stops fun record => r.config.admits record.name) := by
  have hresults := results_search (P := fun s : Reader => s.config = r.config) id r.config.admits id
    (fun s hs => by
      rw [← hs, Option.map_id]
      exact ⟨rfl, rfl, rfl⟩) rfl
  rw [hresults, List.map_id]
  rfl

theorem results_messages (r : Reader) (name : String) :
    Feed.results (r.messages name) =
      r.stream.filter (Feed.stops fun record => record.name == name) := by
  have hresults := results_search (P := fun m : Messages => m.name = name) Messages.reader
    (· == name) id (fun m hm => by
      rw [← hm, Option.map_id]
      exact ⟨rfl, rfl, rfl⟩) (rfl : (r.messages name).name = name)
  rw [hresults, List.map_id]
  rfl

/-- Opening pays no heed to the filter. -/
theorem ofBytes_withFilter (bytes : List UInt8) (kind : LogKind) (config : Config)
    (filter : Option (List String)) :
    (ofBytes bytes kind { config with typeFilter := filter }).value =
      (ofBytes bytes kind config).value.map (withFilter filter) := by
  obtain ⟨_, mode⟩ := config
  unfold ofBytes
  cases mode with
  | boot => rfl
  | gpsInterpolated =>
    dsimp only
    cases (Clock.scan (Log.ofBytes bytes kind)).clock <;> rfl

theorem untimed_stamp (clock : Clock) (items : List (Except LogError Record)) :
    (items.map (Except.map clock.stamp)).map (Except.map Record.untimed) =
      items.map (Except.map Record.untimed) := by
  rw [List.map_map]
  refine List.map_congr_left fun item _ => ?_
  cases item <;> rfl

theorem stream_of_ofBytes {bytes : List UInt8} {kind : LogKind} {config : Config} {r : Reader}
    (h : (ofBytes bytes kind config).value = .ok r) :
    r.stream = (Feed.results (Log.ofBytes bytes kind)).map (Except.map r.clock.stamp) := by
  rw [stream_eq, (on_of_ofBytes h).2.rest]

/-- From boot every log is opened. With the time of a position fix a log is opened unless an error
comes before the first record that gives a clock, whatever errors follow. An open log gives all
items from its start, the errors in their places and the records unchanged but for their times, and
the filter has no part in this. -/
theorem ofBytes_lossless (bytes : List UInt8) (kind : LogKind) (filter : Option (List String)) :
    let items := Feed.results (Log.ofBytes bytes kind)
    let opened (mode : ClockMode) :=
      (ofBytes bytes kind { typeFilter := filter, clock := mode }).value
    (∃ r, opened .boot = .ok r ∧ r.clock.timebase = 0) ∧
      (∀ e, opened .gpsInterpolated = .error e ↔ Clock.Prevented items e) ∧
      ((∀ e, ¬ Clock.Prevented items e) → ∃ r, opened .gpsInterpolated = .ok r ∧
        r.clock.timebase = (Clock.first items).timebase) ∧
      (∀ mode r, opened mode = .ok r → r.stream = items.map (Except.map fun record =>
        { record with timestamp := r.clock.timestamp? record })) ∧
      (∀ (clock : Clock) (record : Record), clock.timestamp? record = none ↔
        record.hasNumber "TimeUS" = false ∧ record.hasNumber "TimeMS" = false) ∧
      (∀ boot gps, opened .boot = .ok boot → opened .gpsInterpolated = .ok gps →
        boot.stream.map (Except.map Record.untimed) =
          gps.stream.map (Except.map Record.untimed)) ∧
      ∀ other mode, (ofBytes bytes kind { typeFilter := other, clock := mode }).value =
        (opened mode).map (withFilter other) := by
  intro items opened
  have hstream : ∀ mode r, opened mode = .ok r →
      r.stream = items.map (Except.map r.clock.stamp) := fun _ _ h => stream_of_ofBytes h
  have herror : ∀ e, opened .gpsInterpolated = .error e ↔ Clock.Prevented items e :=
    fun _ => ofBytes_eq_error.trans Clock.ofItems_eq_error
  refine ⟨⟨_, rfl, rfl⟩, herror, fun hnone => ?_, hstream, fun _ _ => Clock.timestamp?_eq_none,
    fun boot gps hboot hgps => ?_, fun other mode => ?_⟩
  · cases hgps : opened .gpsInterpolated with
    | error e => exact absurd ((herror e).mp hgps) (hnone e)
    | ok r =>
      have hclock : r.clock = Clock.first items :=
        Clock.eq_first_of_ofItems (on_of_ofBytes hgps).1
      exact ⟨r, rfl, by rw [hclock]⟩
  · rw [hstream _ _ hboot, hstream _ _ hgps, untimed_stamp, untimed_stamp]
  · exact ofBytes_withFilter bytes kind { typeFilter := filter, clock := mode } other

/-- A log with a line that cannot be read after its first position fix. -/
def lateFault : List UInt8 := [
    "FMT, 65, 22, GPS, QBIH, TimeUS,Status,GMS,GWk\n",
    "GPS, 1000000, 1, 10000, 2000\n",
    "GPS, 2000000, 3, 10000, 2000\n",
    "GPS, x, 3, 10000, 2000\n",
    "GPS, 3000000, 3, 20000, 2000\n"].flatMap Utf8.encode

theorem ofBytes_lossless_lateFault :
    let items := Feed.results (Log.ofBytes lateFault .text)
    let opened (mode : ClockMode) :=
      (ofBytes lateFault .text { typeFilter := some ["GPS"], clock := mode }).value
    items.map Except.isOk = [true, true, true, false, true] ∧
      ∃ boot gps, opened .boot = .ok boot ∧ opened .gpsInterpolated = .ok gps ∧
        gps.clock.timebase = Clock.gpsToUnix 2000 10000 - 2 ∧
        gps.stream = items.map (Except.map gps.clock.stamp) ∧
        boot.stream.map (Except.map Record.untimed) =
          gps.stream.map (Except.map Record.untimed) := by
  intro items opened
  obtain ⟨⟨boot, hboot, -⟩, herror, hopen, hstream, -, hmodes, -⟩ :=
    ofBytes_lossless lateFault .text (some ["GPS"])
  have hok : (opened .gpsInterpolated).isOk = true := by decide +kernel
  have hnone : ∀ e, ¬ Clock.Prevented items e := by
    intro e he
    have hgps : opened .gpsInterpolated = .error e := (herror e).mpr he
    rw [hgps] at hok
    cases hok
  have hfirst : (Clock.first items).timebase = Clock.gpsToUnix 2000 10000 - 2 := by decide +kernel
  obtain ⟨gps, hgps, htimebase⟩ := hopen hnone
  exact ⟨by decide +kernel, boot, gps, hboot, hgps, htimebase.trans hfirst,
    hstream _ gps hgps, hmodes boot gps hboot hgps⟩

end Reader

end DataFlash
