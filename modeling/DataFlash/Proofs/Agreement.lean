import DataFlash.Proofs.EventLines
import DataFlash.Proofs.Opening

namespace DataFlash.Event

theorem results_log {events : List Event} (h : Legal [] events) :
    Feed.results (Log.ofBytes (binaryLog events) .binary) = (events.map record).map .ok ∧
      Feed.results (Log.ofBytes (textLog events) .text) = (events.map record).map .ok := by
  rw [List.map_map]
  exact ⟨(Log.results_binary _).trans (results_binaryLog h),
    (Log.results_text _).trans (results_textLog h)⟩

theorem answers_drain (config : Config) (clock : Clock) (records : List Record) :
    (Tape.answers config { all := records.map .ok, rest := records.map .ok } [.drain]).map
        (List.map (Except.map clock.stamp)) =
      [(records.filter (config.admits ·.name)).map (.ok ∘ clock.stamp)] := by
  have hfilter : (records.map Except.ok).filter (Feed.stops (config.admits ·.name)) =
      (records.filter (config.admits ·.name)).map Except.ok := by
    rw [List.filter_map]
    rfl
  simp only [Tape.answers, Tape.ask, hfilter, List.map_cons, List.map_nil, List.map_map]
  rfl

/-- The binary log and the text log of events are opened with the same clock, whatever the
configuration is. The readers answer every sequence of queries alike, and draining them gives the
records of the events that the configuration admits, with their times and without any error. -/
theorem answers_binaryLog_textLog {events : List Event} (h : Legal [] events) (config : Config) :
    ∃ binary text clock,
      (Reader.ofBytes (binaryLog events) .binary config).value = .ok binary ∧
        (Reader.ofBytes (textLog events) .text config).value = .ok text ∧
        binary.clock = clock ∧ text.clock = clock ∧
        Clock.opening config ((events.map record).map .ok) = .ok clock ∧
        (∀ queries, binary.answers queries = text.answers queries) ∧
        binary.answers [.drain] =
          [((events.map record).filter (config.admits ·.name)).map (.ok ∘ clock.stamp)] := by
  obtain ⟨hbinary, htext⟩ := results_log h
  obtain ⟨clock, hclock⟩ := Clock.opening_ok config (events.map record)
  obtain ⟨binary, hb, hbon⟩ := Reader.on_ofBytes hbinary hclock
  obtain ⟨text, ht, hton⟩ := Reader.on_ofBytes htext hclock
  refine ⟨binary, text, clock, hb, ht, hbon.clock, hton.clock, hclock, ?_, ?_⟩
  · intro queries
    rw [hbon.answers, hton.answers]
  · rw [hbon.answers, answers_drain]

/-- Events with a position fix, a message with numbers at the ends of their ranges and an empty
text, and that message defined again without any fields. -/
def mixed : List Event :=
  let gps : Definition := {
    typeId := 4
    length := 18
    name := "GPS"
    format := "QBIH"
    columns := ["TimeUS", "Status", "GMS", "GWk"] }
  let full : Definition := {
    typeId := 5
    length := 41
    name := "é"
    format := "qQbnN"
    columns := ["Low", "High", "Small", "Tag", "Text"] }
  let empty : Definition := { typeId := 5, length := 4, name := "é", format := "", columns := [] }
  [.definition gps,
    .data gps [.uint 5000000, .uint 3, .uint 259200000, .uint 1800] [],
    .definition full,
    .data full [.int Int64.minValue, .uint 0xFFFFFFFFFFFFFFFF, .int (-128), .text "",
      .text "a b\r\tµ"] [0xA3],
    .definition empty,
    .data empty [] [0x95]]

theorem answers_mixed :
    let config : Config := { typeFilter := some ["é"] }
    let queries : List Query := [.next, .receive "GPS", .rewind, .messages "é" 1, .drain]
    Legal [] mixed ∧ ∃ binary text,
      (Reader.ofBytes (binaryLog mixed) .binary config).value = .ok binary ∧
        (Reader.ofBytes (textLog mixed) .text config).value = .ok text ∧
        binary.answers queries = text.answers queries ∧
        (text.answers [.drain]).map List.length = [2] := by
  intro config queries
  have hlegal : Legal [] mixed := by decide +kernel
  obtain ⟨binary, text, clock, hb, ht, -, -, -, hagree, hdrain⟩ :=
    answers_binaryLog_textLog hlegal config
  have hcount : ((mixed.map record).filter (config.admits ·.name)).length = 2 := by
    decide +kernel
  refine ⟨hlegal, binary, text, hb, ht, hagree queries, ?_⟩
  rw [← hagree, hdrain, List.map_singleton, List.length_map, hcount]

end DataFlash.Event
