import DataFlash.Proofs.Continuation
import DataFlash.Proofs.Layout
import DataFlash.Proofs.Outcome

namespace DataFlash

def Alike {ε α : Type} (same : ε → ε → Prop) : Except ε α → Except ε α → Prop
  | .ok a, .ok a' => a' = a
  | .error e, .error e' => same e e'
  | _, _ => False

theorem alike_of_mapError {α : Type} {x x' : Except LogError α} {line : Nat}
    (h : x.mapError (LogError.atLine line) = x'.mapError (LogError.atLine line)) :
    Alike LogError.SameButLine x x' := by
  cases x <;> cases x'
  · exact LogError.sameButLine_of_atLine (Except.error.inj h)
  · cases h
  · cases h
  · exact (Except.ok.inj h).symm

theorem Alike.map {ε α β : Type} {same : ε → ε → Prop} {x x' : Except ε α} (h : Alike same x x')
    (f : α → β) : Alike same (x.map f) (x'.map f) := by
  cases x <;> cases x'
  · exact h
  · exact h
  · exact h
  · exact congrArg f h

def ReportError.SameButLine : ReportError → ReportError → Prop
  | .read e, .read e' => e.SameButLine e'
  | .write fault, .write fault' => fault' = fault
  | _, _ => False

namespace Feed

variable {α : Type} (f : LogError → LogError) (items : List (Except LogError α))

theorem leading_mapError : leading (items.map (Except.mapError f)) = leading items := by
  induction items with
  | nil => rfl
  | cons item rest ih =>
    cases item with
    | ok a => exact congrArg (a :: ·) ih
    | error e => rfl

theorem errors_mapError : errors (items.map (Except.mapError f)) = (errors items).map f := by
  induction items with
  | nil => rfl
  | cons item rest ih =>
    cases item with
    | ok a => exact ih
    | error e => exact congrArg (f e :: ·) ih

end Feed

/-- Whether an item bears on a power report. -/
def bears : Except LogError Record → Bool :=
  Feed.stops fun r => r.name == "GPS" || r.name == PowerStatus.recordName

theorem bears_eq_false {r : Record} :
    bears (.ok r) = false ↔ r.name ≠ "GPS" ∧ r.name ≠ PowerStatus.recordName := by
  simp [bears, Feed.stops]

/-- The items that bear on a power report, their errors as on a line 0. -/
def bearing (items : List (Except LogError Record)) : List (Except LogError Record) :=
  (items.map (Except.mapError (LogError.atLine 0))).filter bears

theorem bearing_cons_error (e : LogError) (rest : List (Except LogError Record)) :
    bearing (.error e :: rest) = .error (e.atLine 0) :: bearing rest := rfl

theorem bearing_cons_ok {r : Record} (h : bears (.ok r) = true)
    (rest : List (Except LogError Record)) : bearing (.ok r :: rest) = .ok r :: bearing rest :=
  List.filter_cons_of_pos h

theorem bearing_cons_other {r : Record} (h : bears (.ok r) = false)
    (rest : List (Except LogError Record)) : bearing (.ok r :: rest) = bearing rest :=
  List.filter_cons_of_neg (by simp [Except.mapError, h])

theorem bearing_append (items more : List (Except LogError Record)) :
    bearing (items ++ more) = bearing items ++ bearing more := by
  rw [bearing, List.map_append, List.filter_append, bearing, bearing]

theorem Clock.ofItems_bearing (items : List (Except LogError Record)) :
    ofItems (bearing items) = (ofItems items).mapError (LogError.atLine 0) := by
  induction items with
  | nil => rfl
  | cons item rest ih =>
    cases item with
    | error e => rw [bearing_cons_error, ofItems_cons_error, ofItems_cons_error, Except.mapError]
    | ok r =>
      cases hr : bears (.ok r) with
      | true =>
        rw [bearing_cons_ok hr, ofItems_cons_ok, ofItems_cons_ok, ih]
        split <;> rfl
      | false =>
        have hnone : ofGps? r = none := by
          unfold ofGps?
          simp [(bears_eq_false.mp hr).1]
        rw [bearing_cons_other hr, ofItems_cons_ok, hnone, ih]

theorem Clock.opening_bearing (config : Config) (items : List (Except LogError Record)) :
    opening config (bearing items) = (opening config items).mapError (LogError.atLine 0) := by
  unfold opening
  split
  · rfl
  · exact ofItems_bearing items

theorem PowerStatus.ofRecord_atLine (line : Nat) (r : Record) :
    (ofRecord r).mapError (LogError.atLine line) = ofRecord r := by
  unfold ofRecord Record.require
  cases r.get? "Flags" with
  | none => rfl
  | some v =>
    simp only [bind, Except.bind]
    cases v.toMask? <;> rfl

theorem PowerFeed.fed_bearing (clock : Clock) (items : List (Except LogError Record)) :
    fed clock (bearing items) = (fed clock items).map (Except.mapError (LogError.atLine 0)) := by
  induction items with
  | nil => rfl
  | cons item rest ih =>
    cases item with
    | error e =>
      rw [bearing_cons_error, fed_cons_error, fed_cons_error, ih]
      rfl
    | ok r =>
      cases hr : bears (.ok r) with
      | true =>
        rw [bearing_cons_ok hr]
        by_cases hname : r.name = PowerStatus.recordName
        · rw [fed_cons_power hname, fed_cons_power hname, List.map_cons,
            PowerStatus.ofRecord_atLine, ih]
        · rw [fed_cons_other hname, fed_cons_other hname, ih]
      | false =>
        rw [bearing_cons_other hr, fed_cons_other (bears_eq_false.mp hr).2, ih]

theorem Reader.clock_ofBytes (bytes : List UInt8) (kind : LogKind) (config : Config) :
    (ofBytes bytes kind config).value.map Reader.clock =
      Clock.opening config (Feed.results (Log.ofBytes bytes kind)) := by
  cases hvalue : (ofBytes bytes kind config).value with
  | error e => exact (ofBytes_eq_error.mp hvalue).symm
  | ok r => exact (on_of_ofBytes hvalue).1.symm

theorem Report.changes_alike {σ : Type} {run run' : Run σ PowerStatus}
    (h : run.items.map (Except.mapError (LogError.atLine 0)) =
      run'.items.map (Except.mapError (LogError.atLine 0))) (names : BitNames) (sink : Sink) :
    (changes names run' sink).sink.bytes = (changes names run sink).sink.bytes ∧
      Alike ReportError.SameButLine (changes names run sink).result
        (changes names run' sink).result := by
  have hleading : Feed.leading run'.items = Feed.leading run.items := by
    rw [← Feed.leading_mapError (LogError.atLine 0) run'.items, ← h, Feed.leading_mapError]
  have herrors : (Feed.errors run.items).map (LogError.atLine 0) =
      (Feed.errors run'.items).map (LogError.atLine 0) := by
    rw [← Feed.errors_mapError, h, Feed.errors_mapError]
  obtain ⟨hbytes, hheld, hover⟩ := proceed_eq names run.closing { sink } run.steps
  obtain ⟨hbytes', hheld', hover'⟩ := proceed_eq names run'.closing { sink } run'.steps
  unfold Run.items at hleading herrors
  rw [hleading] at hbytes' hheld' hover'
  refine ⟨hbytes'.trans hbytes.symm, ?_⟩
  unfold changes
  -- The lines of the two are the same, so there is room for all of them in both or in neither.
  by_cases hroom : sink.Holds
      (Utf8.encode (written (changeLines names 0 (Feed.leading (run.steps.map (·.2)))))).length
  · rw [hheld hroom, hheld' hroom]
    cases hfirst : Feed.errors (run.steps.map (·.2)) with
    | nil =>
      rw [hfirst, List.map_nil, List.nil_eq, List.map_eq_nil_iff] at herrors
      rw [herrors]
      rfl
    | cons e rest =>
      rw [hfirst, List.map_cons] at herrors
      obtain ⟨e', rest', hfirst', hline, -⟩ := List.map_eq_cons_iff.mp herrors.symm
      rw [hfirst']
      exact LogError.sameButLine_of_atLine hline.symm
  · rw [hover hroom, hover' hroom]
    rfl

namespace TextLog

def lineName (text : List Char) : String := String.ofList ((Text.parts text).headD [])

/-- A line of a message that has no part in a power report, and which some definitions do not
refuse. -/
structure Bystander (table : Table String) (line : Nat) (text : List Char) : Prop where
  name : lineName text ∉ ["FMT", PowerStatus.recordName, "GPS"]
  readable : ∀ e, readLine table line text ≠ .refused e

theorem yields_readData_other (table : Table String) {d : Definition} {line : Nat} {name : String}
    {values : List String} (hname : name ≠ "GPS" ∧ name ≠ PowerStatus.recordName)
    (hread : ∀ e, readData d line name values ≠ .refused e) :
    let given := yields table (readData d line name values)
    given.1 = table ∧ given.2.filter bears = [] := by
  unfold readData at hread ⊢
  split at hread
  · next hcount =>
    rw [if_pos hcount]
    exact ⟨rfl, rfl⟩
  · next hcount =>
    rw [if_neg hcount]
    split at hread
    · next fields _ =>
      have hbears : bears (.ok { name, fields }) = false := bears_eq_false.mpr hname
      exact ⟨rfl, List.filter_cons_of_neg (by simp [hbears])⟩
    · next e _ => exact absurd rfl (hread (.onLine line e))

/-- A bystander defines nothing, and what it gives bears on no report. -/
theorem Bystander.yields {table : Table String} {line : Nat} {text : List Char}
    (h : Bystander table line text) :
    let given := yields table (readLine table line text)
    given.1 = table ∧ given.2.filter bears = [] := by
  obtain ⟨hname, hread⟩ := h
  unfold lineName at hname
  unfold readLine at hread ⊢
  split at hread
  · exact ⟨rfl, rfl⟩
  · exact ⟨rfl, rfl⟩
  · next part more hblank hparts =>
    rw [hparts, List.headD_cons] at hname
    simp only [List.mem_cons, List.not_mem_nil, or_false, not_or] at hname
    obtain ⟨hdefines, hpower, hgps⟩ := hname
    simp only [hdefines, if_false] at hread ⊢
    cases hd : table.get? (String.ofList part) with
    | none => exact ⟨rfl, rfl⟩
    | some d =>
      simp only [hd] at hread
      exact yields_readData_other table ⟨hgps, hpower⟩ hread

/-- A bystander among the lines of a log leaves the items that bear on a report as they are. -/
theorem bearing_insert {before : List (List Char)} {text : List Char}
    (h : let here := (Feed.run (ofLines before)).final
      Bystander here.table (here.line + 1) text) (after : List (List Char)) :
    bearing (Feed.results (ofLines (before ++ text :: after))) =
      bearing (Feed.results (ofLines (before ++ after))) := by
  set here := (Feed.run (ofLines before)).final
  have hsplit (more : List (List Char)) : bearing (Feed.results (ofLines (before ++ more))) =
      bearing (Feed.results (ofLines before)) ++ (unnumbered here.table more).filter bears := by
    have hresults : Feed.results (ofLines (before ++ more)) =
        Feed.results (ofLines before) ++ Feed.results (here.extended more) :=
      results_extended (ofLines before) more
    have hrest : (here.extended more).rest = more := by
      rw [extended, rest_final, List.nil_append]
    rw [hresults, bearing_append, bearing, bearing, results_unnumbered (here.extended more), hrest]
    rfl
  -- The line stands first in what is left here; it gives the same whatever its number is.
  obtain ⟨htable, hgiven⟩ := h.yields
  rw [yields_readLine] at htable hgiven
  rw [hsplit, hsplit, unnumbered, List.filter_append, hgiven, htable, List.nil_append]

/-- A line that is inserted between lines of a log, its bytes as UTF-8 or not. -/
theorem lines_decode_insert {front line : List UInt8} (hfront : Utf8.EndsLine front)
    (hline : 0x0A ∉ line) (back : List UInt8) :
    Text.lines (Utf8.decode (front ++ (line ++ 0x0A :: back))) =
      Text.lines (Utf8.decode front) ++ Utf8.decode line :: Text.lines (Utf8.decode back) := by
  rw [Text.lines_decode_append hfront, Text.lines_decode_line hline]

end TextLog

/-- A line of a message that has no part in a power report may stand anywhere in a text log or not:
the log is opened with the same clock or the same error, its power records give the same statuses
and errors, and the report has the same bytes and the same result. Errors may name another line. -/
theorem Report.changes_bystander {bytes bytes' : List UInt8} {before after : List (List Char)}
    {text : List Char} (hlines : Text.lines (Utf8.decode bytes) = before ++ after)
    (hlines' : Text.lines (Utf8.decode bytes') = before ++ text :: after)
    (htext : let here := (Feed.run (TextLog.ofLines before)).final
      TextLog.Bystander here.table (here.line + 1) text) (config : Config) :
    let opened := (Reader.ofBytes bytes .text config).value
    let opened' := (Reader.ofBytes bytes' .text config).value
    Alike LogError.SameButLine (opened.map (·.clock.timebase)) (opened'.map (·.clock.timebase)) ∧
      ∀ r r', opened = .ok r → opened' = .ok r' →
        let source : PowerFeed := { reader := r }
        let source' : PowerFeed := { reader := r' }
        List.Forall₂ (Alike LogError.SameButLine) (Feed.results source) (Feed.results source') ∧
          ∀ names sink,
            let report := changes names (Feed.run source) sink
            let report' := changes names (Feed.run source') sink
            report'.sink.bytes = report.sink.bytes ∧
              Alike ReportError.SameButLine report.result report'.result := by
  intro opened opened'
  set items := Feed.results (Log.ofBytes bytes .text)
  set items' := Feed.results (Log.ofBytes bytes' .text)
  have hbearing : bearing items' = bearing items := by
    have hitems : items = Feed.results (TextLog.ofLines (before ++ after)) := by
      rw [← hlines]
      exact Log.results_text _
    have hitems' : items' = Feed.results (TextLog.ofLines (before ++ text :: after)) := by
      rw [← hlines']
      exact Log.results_text _
    rw [hitems, hitems', TextLog.bearing_insert htext]
  -- The clock and the statuses are settled by the items that bear on a report.
  have hopening : (Clock.opening config items).mapError (LogError.atLine 0) =
      (Clock.opening config items').mapError (LogError.atLine 0) := by
    rw [← Clock.opening_bearing, ← Clock.opening_bearing, hbearing]
  have hclock :
      Alike LogError.SameButLine (opened.map Reader.clock) (opened'.map Reader.clock) := by
    rw [Reader.clock_ofBytes, Reader.clock_ofBytes]
    exact alike_of_mapError hopening
  have htimebase (x : Except LogError Reader) :
      x.map (·.clock.timebase) = (x.map Reader.clock).map Clock.timebase := by
    cases x <;> rfl
  refine ⟨?_, fun r r' hr hr' => ?_⟩
  · rw [htimebase, htimebase]
    exact hclock.map Clock.timebase
  · have hsame : r'.clock = r.clock := by
      rw [hr, hr'] at hclock
      exact hclock
    have hresults : (Feed.results ({ reader := r } : PowerFeed)).map
        (Except.mapError (LogError.atLine 0)) =
          (Feed.results ({ reader := r' } : PowerFeed)).map
            (Except.mapError (LogError.atLine 0)) := by
      rw [PowerFeed.results_of_ofBytes hr, PowerFeed.results_of_ofBytes hr',
        ← PowerFeed.fed_bearing, ← PowerFeed.fed_bearing, hsame, hbearing]
    refine ⟨?_, fun names sink => changes_alike hresults names sink⟩
    rw [← List.forall₂_eq_eq_eq, List.forall₂_map_left_iff, List.forall₂_map_right_iff] at hresults
    exact hresults.imp fun _ _ => alike_of_mapError

/-- A battery record before the first position fix moves a line that cannot be read from the seventh
to the eighth place. -/
theorem Report.changes_bystander_battery :
    let front := ["FMT, 64, 21, POWR, QB, TimeUS,Flags\n",
      "FMT, 65, 22, GPS, QBIH, TimeUS,Status,GMS,GWk\n",
      "FMT, 66, 12, BAT, QB, TimeUS,Volt\n",
      "POWR, 1000000, 1\n"].flatMap Utf8.encode
    let line := Utf8.encode "BAT, 1500000, 12"
    let back := ["GPS, 2000000, 3, 10000, 2000\n",
      "POWR, 3000000, 68\n",
      "POWR, x, 0\n"].flatMap Utf8.encode
    let bytes := front ++ back
    let bytes' := front ++ (line ++ 0x0A :: back)
    Feed.errors (Feed.results (Log.ofBytes bytes .text)) = [.onLine 7 (.unreadable "x" 'Q')] ∧
      Feed.errors (Feed.results (Log.ofBytes bytes' .text)) = [.onLine 8 (.unreadable "x" 'Q')] ∧
      ∃ r r', (Reader.ofBytes bytes .text {}).value = .ok r ∧
        (Reader.ofBytes bytes' .text {}).value = .ok r' ∧
        r'.clock.timebase = r.clock.timebase ∧
        List.Forall₂ (Alike LogError.SameButLine) (Feed.results ({ reader := r } : PowerFeed))
          (Feed.results ({ reader := r' } : PowerFeed)) ∧
        ∀ names sink, (changes names (Feed.run ({ reader := r' } : PowerFeed)) sink).sink.bytes =
          (changes names (Feed.run ({ reader := r } : PowerFeed)) sink).sink.bytes := by
  intro front line back bytes bytes'
  have hfront : Utf8.EndsLine front := by decide +kernel
  have hline : 0x0A ∉ line := by decide +kernel
  have htext : let here := (Feed.run (TextLog.ofLines (Text.lines (Utf8.decode front)))).final
      TextLog.Bystander here.table (here.line + 1) (Utf8.decode line) := by
    intro here
    refine ⟨by decide +kernel, fun e he => ?_⟩
    have hgiven : (TextLog.yields here.table
        (TextLog.readLine here.table (here.line + 1) (Utf8.decode line))).2.map Except.isOk =
          [true] := by
      decide +kernel
    rw [he] at hgiven
    cases hgiven
  have hok : (Reader.ofBytes bytes .text {}).value.isOk = true := by decide +kernel
  obtain ⟨hclock, hopen⟩ := changes_bystander (Text.lines_decode_append hfront back)
    (TextLog.lines_decode_insert hfront hline back) htext {}
  cases hr : (Reader.ofBytes bytes .text {}).value with
  | error e =>
    rw [hr] at hok
    cases hok
  | ok r =>
    rw [hr] at hclock
    cases hr' : (Reader.ofBytes bytes' .text {}).value with
    | error e =>
      rw [hr'] at hclock
      cases hclock
    | ok r' =>
      obtain ⟨hsame, hreport⟩ := hopen r r' hr hr'
      rw [hr'] at hclock
      exact ⟨by decide +kernel, by decide +kernel, r, r', rfl, rfl, hclock, hsame,
        fun names sink => (hreport names sink).1⟩

end DataFlash
