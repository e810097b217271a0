import DataFlash.Proofs.Changes
import DataFlash.Proofs.Limits
import DataFlash.Proofs.Stream
import DataFlash.Files

namespace DataFlash

namespace PowerStatus

def mask? (r : Record) : Option UInt32 := (r.get? "Flags").bind Value.toMask?

theorem ofRecord_of_mask {r : Record} {flags : UInt32} (h : mask? r = some flags) :
    ofRecord r = .ok { flags, time := r.time } := by
  obtain ⟨v, hv, hm⟩ := Option.bind_eq_some_iff.mp h
  simp [ofRecord, Record.require, hv, hm, bind, Except.bind, pure, Except.pure]

theorem isSome_mask? (r : Record) : (mask? r).isSome = r.hasNumber "Flags" :=
  Record.isSome_bind_get? (fun v => by cases v <;> rfl) r "Flags"

theorem exists_ofRecord_eq_error {r : Record} (h : mask? r = none) :
    ∃ e, ofRecord r = .error e := by
  unfold ofRecord Record.require
  cases hv : r.get? "Flags" with
  | none => exact ⟨_, rfl⟩
  | some v =>
    rw [mask?, hv] at h
    have hm : v.toMask? = none := h
    refine ⟨.flagsNotInteger r.name, ?_⟩
    simp [bind, Except.bind, hm, throw, throwThe, MonadExceptOf.throw]

end PowerStatus

namespace PowerFeed

open PowerStatus (mask? recordName)

theorem results_eq (r : Reader) :
    Feed.results ({ reader := r } : PowerFeed) =
      (r.stream.filter (Feed.stops fun record => record.name == recordName)).map
        (·.bind PowerStatus.ofRecord) :=
  Reader.results_search (P := fun _ : PowerFeed => True) PowerFeed.reader (· == recordName)
    (·.bind PowerStatus.ofRecord) (fun _ _ => ⟨rfl, rfl, trivial⟩) trivial

/-- Whether an item ends a report: an error, or a power record whose flags are not a number. -/
def ends : Except LogError Record → Bool
  | .error _ => true
  | .ok r => r.name == recordName && !r.hasNumber "Flags"

def status? (clock : Clock) : Except LogError Record → Option PowerStatus
  | .error _ => none
  | .ok r =>
    if r.name = recordName then
      (mask? r).map fun flags => { flags, time := (clock.timestamp? r).getD 0 }
    else none

/-- The statuses of the power records before the first failure. -/
def reported (clock : Clock) (items : List (Except LogError Record)) : List PowerStatus :=
  (items.takeWhile (!ends ·)).filterMap (status? clock)

def fed (clock : Clock) (items : List (Except LogError Record)) :
    List (Except LogError PowerStatus) :=
  ((items.map (Except.map clock.stamp)).filter
    (Feed.stops fun record => record.name == recordName)).map (·.bind PowerStatus.ofRecord)

/-- The power records of a log that was opened are those of its items. -/
theorem results_of_ofBytes {bytes : List UInt8} {kind : LogKind} {config : Config} {r : Reader}
    (h : (Reader.ofBytes bytes kind config).value = .ok r) :
    Feed.results ({ reader := r } : PowerFeed) =
      fed r.clock (Feed.results (Log.ofBytes bytes kind)) := by
  rw [results_eq, Reader.stream_of_ofBytes h]
  rfl

variable {clock : Clock} {r : Record} {rest : List (Except LogError Record)}

theorem ends_power (h : r.name = recordName) : ends (.ok r) = (mask? r).isNone := by
  simp [ends, h, ← PowerStatus.isSome_mask?]

theorem ends_other (h : r.name ≠ recordName) : ends (.ok r) = false := by
  simp [ends, h]

theorem fed_cons_error (clock : Clock) (e : LogError) (rest : List (Except LogError Record)) :
    fed clock (.error e :: rest) = .error e :: fed clock rest := rfl

theorem fed_cons_other (h : r.name ≠ recordName) : fed clock (.ok r :: rest) = fed clock rest := by
  have hpass : (r.name == recordName) = false := by simpa using h
  simp [fed, Feed.stops, Except.map, Clock.stamp, hpass]

theorem fed_cons_power (h : r.name = recordName) :
    fed clock (.ok r :: rest) = PowerStatus.ofRecord (clock.stamp r) :: fed clock rest := by
  simp [fed, Feed.stops, Except.map, Except.bind, Clock.stamp, h]

theorem leading_fed (clock : Clock) (items : List (Except LogError Record)) :
    Feed.leading (fed clock items) = reported clock items := by
  induction items with
  | nil => rfl
  | cons item rest ih =>
    cases item with
    | error e => rfl
    | ok r =>
      by_cases hname : r.name = recordName
      · rw [fed_cons_power hname]
        cases hmask : mask? r with
        | none =>
          obtain ⟨e, he⟩ := PowerStatus.exists_ofRecord_eq_error (r := clock.stamp r) hmask
          simp [he, Feed.leading, reported, ends_power hname, hmask]
        | some flags =>
          rw [PowerStatus.ofRecord_of_mask (r := clock.stamp r) hmask, Feed.leading, ih]
          simp [reported, ends_power hname, status?, hname, hmask, Record.time, Clock.stamp]
      · rw [fed_cons_other hname, ih]
        simp [reported, ends_other hname, status?, hname]

theorem errors_fed (clock : Clock) (items : List (Except LogError Record)) :
    Feed.errors (fed clock items) = [] ↔ ∀ item ∈ items, ends item = false := by
  induction items with
  | nil => exact iff_of_true rfl (by simp)
  | cons item rest ih =>
    rw [List.forall_mem_cons, ← ih]
    cases item with
    | error e => simp [fed_cons_error, Feed.errors, ends]
    | ok r =>
      by_cases hname : r.name = recordName
      · rw [fed_cons_power hname]
        cases hmask : mask? r with
        | none =>
          obtain ⟨e, he⟩ := PowerStatus.exists_ofRecord_eq_error (r := clock.stamp r) hmask
          simp [he, Feed.errors, ends_power hname, hmask]
        | some flags =>
          rw [PowerStatus.ofRecord_of_mask (r := clock.stamp r) hmask]
          simp [Feed.errors, ends_power hname, hmask]
      · rw [fed_cons_other hname]
        simp [ends_other hname]

/-- No item ends a report where there are no errors and the flags of all power records are
numbers. -/
theorem forall_ends_eq_false {items : List (Except LogError Record)} :
    (∀ item ∈ items, ends item = false) ↔ (∀ e, .error e ∉ items) ∧
      ∀ r, .ok r ∈ items → r.name = recordName → r.hasNumber "Flags" := by
  constructor
  · intro h
    refine ⟨fun e he => Bool.noConfusion (h _ he), fun r hr hname => ?_⟩
    simpa [ends, hname] using h _ hr
  · rintro ⟨herror, hpower⟩ item hitem
    cases item with
    | error e => exact absurd hitem (herror e)
    | ok r =>
      by_cases hname : r.name = recordName
      · simpa [ends, hname] using hpower r hitem hname
      · exact ends_other hname

end PowerFeed

namespace Program

open PowerFeed (reported)

def startup (now : Nat) : String := toString now ++ ": Creating connection\n"

theorem bytes_announce (now : Nat) :
    (Report.announce now "Creating connection" {}).1.room = none ∧
      (Report.announce now "Creating connection" {}).1.bytes = Utf8.encode (startup now) := by
  have hline : toString now ++ ": " ++ "Creating connection" ++ "\n" = startup now := by
    rw [startup, String.append_assoc, String.append_assoc]
    rfl
  obtain ⟨sink, hw, hroom, hbytes⟩ := Sink.write_unlimited (s := {}) rfl
    (Utf8.encode (startup now))
  rw [Report.announce, hline, hw]
  exact ⟨hroom, hbytes⟩

theorem session_error {path : String} {contents : Except Fault (List UInt8)} {e : LogError}
    (h : (Reader.ofFile path contents {}).value = .error e) (now : Nat) :
    (session path contents now).stdout = startup now ∧
      (session path contents now).failure ≠ [] := by
  simp only [session, h]
  exact ⟨Sink.text_of_bytes (bytes_announce now).2, List.cons_ne_nil _ _⟩

theorem chain_ne_nil (e : ReportError) : e.chain ≠ [] := by
  cases e <;> exact List.cons_ne_nil _ _

theorem session_ok {path : String} {contents : Except Fault (List UInt8)} {r : Reader}
    (h : (Reader.ofFile path contents {}).value = .ok r) (now : Nat) :
    let items := Feed.results ({ reader := r } : PowerFeed)
    (session path contents now).stdout = startup now ++
        Report.written (Report.changeLines BitNames.powerStatus 0 (Feed.leading items)) ∧
      ((session path contents now).failure = [] ↔ Feed.errors items = []) := by
  intro items
  obtain ⟨hroom, hstart⟩ := bytes_announce now
  obtain ⟨hbytes, hresult⟩ := Report.changes_unlimited BitNames.powerStatus
    (Feed.run ({ reader := r } : PowerFeed)) hroom
  simp only [session, h, hresult]
  constructor
  · apply Sink.text_of_bytes
    rw [hbytes, hstart, Utf8.encode_append]
    rfl
  · have hitems : (Feed.run ({ reader := r } : PowerFeed)).items = items := rfl
    rw [hitems]
    cases Feed.errors items with
    | nil => simp
    | cons e errors => simp [chain_ne_nil]

theorem value_ofFile {path : String} {bytes : List UInt8} {kind : LogKind} {config : Config}
    (h : LogKind.detect path bytes = .ok kind) :
    (Reader.ofFile path (.ok bytes) config).value = (Reader.ofBytes bytes kind config).value := by
  simp [Reader.ofFile, h]

variable {path : String} {bytes : List UInt8} {kind : LogKind}

theorem session_undetected {e : LogError} (h : LogKind.detect path bytes = .error e) (now : Nat) :
    (session path (.ok bytes) now).stdout = startup now ∧
      (session path (.ok bytes) now).failure ≠ [] := by
  have hvalue : (Reader.ofFile path (.ok bytes) {}).value = .error e := by
    simp [Reader.ofFile, h]
  exact session_error hvalue now

theorem session_prevented (hkind : LogKind.detect path bytes = .ok kind) {e : LogError}
    (h : Clock.Prevented (Feed.results (Log.ofBytes bytes kind)) e) (now : Nat) :
    (session path (.ok bytes) now).stdout = startup now ∧
      (session path (.ok bytes) now).failure ≠ [] := by
  have hvalue : (Reader.ofBytes bytes kind {}).value = .error e :=
    Reader.ofBytes_eq_error.mpr (Clock.ofItems_eq_error.mpr h)
  exact session_error ((value_ofFile hkind).trans hvalue) now

/-- Otherwise the masks before the first failure are reported, and a failure is one of the items. -/
theorem session_open (hkind : LogKind.detect path bytes = .ok kind)
    (h : ∀ e, ¬ Clock.Prevented (Feed.results (Log.ofBytes bytes kind)) e) (now : Nat) :
    let items := Feed.results (Log.ofBytes bytes kind)
    (session path (.ok bytes) now).stdout = startup now ++ Report.written
        (Report.changeLines BitNames.powerStatus 0 (reported (Clock.first items) items)) ∧
      ((session path (.ok bytes) now).failure = [] ↔
        ∀ item ∈ items, PowerFeed.ends item = false) := by
  intro items
  cases hvalue : (Reader.ofBytes bytes kind {}).value with
  | error e => exact absurd (Clock.ofItems_eq_error.mp (Reader.ofBytes_eq_error.mp hvalue)) (h e)
  | ok r =>
    have hclock : r.clock = Clock.first items :=
      Clock.eq_first_of_ofItems (Reader.on_of_ofBytes hvalue).1
    have hfed : Feed.results ({ reader := r } : PowerFeed) =
        PowerFeed.fed (Clock.first items) items := by
      rw [PowerFeed.results_of_ofBytes hvalue, hclock]
    obtain ⟨hstdout, hfailure⟩ := session_ok ((value_ofFile hkind).trans hvalue) now
    rw [hfed] at hstdout hfailure
    rw [PowerFeed.leading_fed] at hstdout
    rw [PowerFeed.errors_fed] at hfailure
    exact ⟨hstdout, hfailure⟩

theorem exit_outcome (s : Session) :
    s.outcome.exit = 0 ∧ s.failure = [] ∨ s.outcome.exit = 1 ∧ s.failure ≠ [] := by
  unfold Session.outcome
  cases s.failure <;> simp

/-- The outcome for a file that can be read, with any options. The program succeeds if the kind of
the log shows, none of its items is an error and the flags of all its power records are numbers. The
output is a line with the time and the report of the power records that come before the first
failure; there is no report where the kind does not show or an error comes before the first
clock. -/
theorem run_report {arguments : List String} {limit : Level}
    {read : String → Except Fault (List UInt8)}
    (hrequest : CommandLine.request arguments = .report path limit) (hread : read path = .ok bytes)
    (now : Nat) :
    let outcome := run (CommandLine.request arguments) read now
    let items (kind : LogKind) := Feed.results (Log.ofBytes bytes kind)
    (outcome.exit = 0 ↔ ∃ kind, LogKind.detect path bytes = .ok kind ∧
      (∀ e, .error e ∉ items kind) ∧
      ∀ r, .ok r ∈ items kind → r.name = PowerStatus.recordName → r.hasNumber "Flags") ∧
    (outcome.exit = 0 ∨ outcome.exit = 1) ∧
    (∀ e, LogKind.detect path bytes = .error e → outcome.stdout = startup now) ∧
    ∀ kind, LogKind.detect path bytes = .ok kind →
      (∀ e, Clock.Prevented (items kind) e → outcome.stdout = startup now) ∧
      ((∀ e, ¬ Clock.Prevented (items kind) e) →
        outcome.stdout = startup now ++ Report.written (Report.changeLines BitNames.powerStatus 0
          (reported (Clock.first (items kind)) (items kind)))) := by
  intro outcome items
  -- The limit of the request shows in the notices only.
  have houtcome : outcome = (session path (.ok bytes) now limit).outcome := by
    simp only [outcome, hrequest, run, hread]
  have hexit := exit_outcome (session path (.ok bytes) now limit)
  have hfailure : (session path (.ok bytes) now limit).failure =
      (session path (.ok bytes) now).failure := by rw [session_under]
  rw [← houtcome, hfailure] at hexit
  have hstdout : outcome.stdout = (session path (.ok bytes) now).stdout := by
    rw [houtcome, session_under]
    rfl
  have hzero : outcome.exit = 0 ↔ (session path (.ok bytes) now).failure = [] := by
    rcases hexit with ⟨he, hf⟩ | ⟨he, hf⟩ <;> simp [he, hf]
  refine ⟨hzero.trans ⟨fun hf => ?_, ?_⟩, hexit.imp And.left And.left, fun e he => ?_,
    fun kind hkind => ⟨fun e he => ?_, fun hnone => ?_⟩⟩
  · cases hkind : LogKind.detect path bytes with
    | error e => exact absurd hf (session_undetected hkind now).2
    | ok kind =>
      have hnone : ∀ e, ¬ Clock.Prevented (items kind) e :=
        fun e he => (session_prevented hkind he now).2 hf
      exact ⟨kind, rfl, PowerFeed.forall_ends_eq_false.mp ((session_open hkind hnone now).2.mp hf)⟩
  · rintro ⟨kind, hkind, herrors, hpower⟩
    have hnone : ∀ e, ¬ Clock.Prevented (items kind) e :=
      fun e he => herrors e he.mem
    exact (session_open hkind hnone now).2.mpr
      (PowerFeed.forall_ends_eq_false.mpr ⟨herrors, hpower⟩)
  · exact hstdout.trans (session_undetected he now).1
  · exact hstdout.trans (session_prevented hkind he now).1
  · exact hstdout.trans (session_open hkind hnone now).1

/-- A log with a power record before its first position fix, masks that stay and change after it,
and a line that cannot be read before the last power record. -/
def interrupted : List UInt8 := [
    "FMT, 64, 21, POWR, QB, TimeUS,Flags\n",
    "FMT, 65, 22, GPS, QBIH, TimeUS,Status,GMS,GWk\n",
    "POWR, 1000000, 1\n",
    "GPS, 2000000, 3, 10000, 2000\n",
    "POWR, 2500000, 1\n",
    "POWR, 3000000, 68\n",
    "GPS, x, 3, 10000, 2000\n",
    "POWR, 4000000, 0\n"].flatMap Utf8.encode

theorem run_report_interrupted :
    let files := ({} : Files).add "flight.log" (.file interrupted)
    let outcome := run (CommandLine.request ["-v", "flight.log", "-q"]) files.read 1700000000
    outcome.exit = 1 ∧ outcome.stdout =
      "1700000000: Creating connection\n" ++
      "2018-05-05 23:59:51.00:  +MAV_POWER_STATUS_BRICK_VALID\n" ++
      "2018-05-05 23:59:53.00:  -MAV_POWER_STATUS_BRICK_VALID +MAV_POWER_STATUS_USB_CONNECTED" ++
      " +UNKNOWN_BIT[6]\n" := by
  intro files outcome
  have hrequest : CommandLine.request ["-v", "flight.log", "-q"] = .report "flight.log" .error := by
    decide +kernel
  have hread : files.read "flight.log" = .ok interrupted := by
    decide +kernel
  have hkind : LogKind.detect "flight.log" interrupted = .ok .text := by
    decide +kernel
  have herror : .error (.onLine 7 (.unreadable "x" 'Q')) ∈
      Feed.results (Log.ofBytes interrupted .text) :=
    Feed.mem_errors.mp (by decide +kernel)
  have hclock : (Clock.ofItems (Feed.results (Log.ofBytes interrupted .text))).isOk = true := by
    decide +kernel
  obtain ⟨hzero, hexit, -, hstdout⟩ := run_report hrequest hread 1700000000
  refine ⟨hexit.resolve_left fun h => ?_, ((hstdout .text hkind).2 fun e he => ?_).trans ?_⟩
  · obtain ⟨kind, hk, herrors, -⟩ := hzero.mp h
    cases hkind.symm.trans hk
    exact herrors _ herror
  · rw [Clock.ofItems_eq_error.mpr he] at hclock
    cases hclock
  · decide +kernel

end Program

end DataFlash
