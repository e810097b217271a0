import DataFlash.Proofs.Feed
import DataFlash.Proofs.Utf8
import DataFlash.Report

namespace DataFlash

namespace Utf8

theorem encode_append (s t : String) : encode (s ++ t) = encode s ++ encode t := by
  simp [encode]

end Utf8

namespace Sink

theorem write_unlimited {s : Sink} (h : s.room = none) (piece : List UInt8) :
    ∃ sink, s.write piece = (sink, true) ∧ sink.room = none ∧ sink.bytes = s.bytes ++ piece :=
  ⟨{ s with pieces := piece :: s.pieces }, by rw [write, h], h, by simp [bytes]⟩

def Holds (s : Sink) (size : Nat) : Prop := ∀ n, s.room = some n → size ≤ n

/-- What an output takes of the bytes that are still to be written. -/
def taken (s : Sink) (bytes : List UInt8) : List UInt8 := bytes.take (s.room.getD bytes.length)

theorem bytes_taken_nil (s : Sink) : s.bytes = s.bytes ++ s.taken [] := by
  rw [taken, List.take_nil, List.append_nil]

theorem holds_zero (s : Sink) : s.Holds 0 := fun _ _ => Nat.zero_le _

theorem Holds.mono {s : Sink} {size larger : Nat} (h : s.Holds larger) (hle : size ≤ larger) :
    s.Holds size :=
  fun n hn => Nat.le_trans hle (h n hn)

section Write

variable {s : Sink} {piece : List UInt8}

theorem write_held (h : s.Holds piece.length) : ∃ sink, s.write piece = (sink, true) ∧
    sink.bytes = s.bytes ++ piece ∧ (∀ more, s.taken (piece ++ more) = piece ++ sink.taken more) ∧
      ∀ size, sink.Holds size ↔ s.Holds (piece.length + size) := by
  unfold write
  cases hroom : s.room with
  | none =>
    refine ⟨{ pieces := piece :: s.pieces }, rfl, by simp [bytes], fun more => ?_, fun size => ?_⟩
    · simp [taken, hroom, List.take_of_length_le]
    · simp [Holds, hroom]
  | some n =>
    have hn : piece.length ≤ n := h n hroom
    refine ⟨{ room := some (n - piece.length), pieces := piece.take n :: s.pieces }, by simp [hn],
      by simp [bytes, List.take_of_length_le hn], fun more => ?_, fun size => ?_⟩
    · simp [taken, hroom, List.take_append, List.take_of_length_le hn]
    · simp only [Holds, hroom, Option.some.injEq, forall_eq']
      omega

theorem write_full (h : ¬ s.Holds piece.length) : ∃ sink, s.write piece = (sink, false) ∧
    ∀ more, sink.bytes = s.bytes ++ s.taken (piece ++ more) := by
  unfold write
  cases hroom : s.room with
  | none => exact absurd (fun n hn => by simp [hroom] at hn) h
  | some n =>
    have hn : n < piece.length := by simpa [Holds, hroom] using h
    refine ⟨{ room := some (n - piece.length), pieces := piece.take n :: s.pieces }, by simp [hn],
      fun more => ?_⟩
    simp [bytes, taken, hroom, List.take_append_of_le_length (Nat.le_of_lt hn)]

end Write

theorem text_of_bytes {s : Sink} {text : String} (h : s.bytes = Utf8.encode text) :
    s.text = text := by
  rw [Sink.text, h, Utf8.decode_encode, String.ofList_toList]

end Sink

/-- The messages from an error of a report down to its cause, in one text. -/
def ReportError.message (e : ReportError) : String := ": ".intercalate e.chain

namespace Report

def changeLine (names : BitNames) (previous : UInt32) (status : PowerStatus) : String :=
  line status.time (diffText names { previous, current := status.flags })

/-- The lines for statuses after a mask: one for each whose mask is not the one before it. -/
def changeLines (names : BitNames) (mask : UInt32) (statuses : List PowerStatus) : List String :=
  ((mask :: statuses.map PowerStatus.flags).zip statuses).filterMap fun (previous, status) =>
    if previous = status.flags then none else some (changeLine names previous status)

def written (lines : List String) : String := String.join (lines.map (· ++ "\n"))

theorem written_cons (first : String) (lines : List String) :
    written (first :: lines) = first ++ "\n" ++ written lines := by
  simp [written, String.join_cons]

theorem encode_written_cons (first : String) (lines : List String) :
    Utf8.encode (written (first :: lines)) =
      Utf8.encode (first ++ "\n") ++ Utf8.encode (written lines) := by
  rw [written_cons, Utf8.encode_append]

theorem changeLines_same (names : BitNames) {mask : UInt32} {status : PowerStatus}
    (h : mask = status.flags) (rest : List PowerStatus) :
    changeLines names mask (status :: rest) = changeLines names status.flags rest := by
  simp [changeLines, h]

theorem changeLines_changed (names : BitNames) {mask : UInt32} {status : PowerStatus}
    (h : mask ≠ status.flags) (rest : List PowerStatus) :
    changeLines names mask (status :: rest) =
      changeLine names mask status :: changeLines names status.flags rest := by
  simp [changeLines, h]

def Progress.seen (p : Progress) (notices : List Notice) (status : PowerStatus) : Progress :=
  { p with
    tracker := { current := some status.flags }
    records := p.records + 1
    heard := notices.reverse ++ p.heard }

section Step

variable {names : BitNames} {closing notices : List Notice} {p : Progress} {status : PowerStatus}
  {rest : List (List Notice × Except LogError PowerStatus)}

theorem proceed_same (h : p.tracker.current.getD 0 = status.flags) :
    proceed names closing p ((notices, .ok status) :: rest) =
      proceed names closing (p.seen notices status) rest := by
  simp [proceed, FlagTracker.observe, h, Progress.seen]

theorem proceed_changed (h : p.tracker.current.getD 0 ≠ status.flags) {sink : Sink}
    (hw : p.sink.write
      (Utf8.encode (changeLine names (p.tracker.current.getD 0) status ++ "\n")) = (sink, true)) :
    proceed names closing p ((notices, .ok status) :: rest) =
      proceed names closing { p.seen notices status with sink, lines := p.lines + 1 } rest := by
  unfold changeLine at hw
  simp [proceed, FlagTracker.observe, h, hw, Progress.seen]

theorem proceed_full (h : p.tracker.current.getD 0 ≠ status.flags) {sink : Sink}
    (hw : p.sink.write
      (Utf8.encode (changeLine names (p.tracker.current.getD 0) status ++ "\n")) = (sink, false)) :
    proceed names closing p ((notices, .ok status) :: rest) =
      { p.seen notices status with sink }.finish (.error (.write .outputFull)) [] := by
  unfold changeLine at hw
  simp [proceed, FlagTracker.observe, h, hw, Progress.seen]

end Step

/-- A report writes the lines for the masks before the first error as far as there is room. If there
is room for all of them it ends with that error or with their number. -/
theorem proceed_eq (names : BitNames) (closing : List Notice) (p : Progress)
    (steps : List (List Notice × Except LogError PowerStatus)) :
    let items := steps.map (·.2)
    let lines := changeLines names (p.tracker.current.getD 0) (Feed.leading items)
    let full := Utf8.encode (written lines)
    let report := proceed names closing p steps
    report.sink.bytes = p.sink.bytes ++ p.sink.taken full ∧
      (p.sink.Holds full.length → report.result = match (Feed.errors items).head? with
        | some e => .error (.read e)
        | none => .ok (p.lines + lines.length)) ∧
      (¬ p.sink.Holds full.length → report.result = .error (.write .outputFull)) := by
  induction steps generalizing p with
  | nil => exact ⟨p.sink.bytes_taken_nil, fun _ => rfl, absurd p.sink.holds_zero⟩
  | cons step rest ih =>
    obtain ⟨notices, item⟩ := step
    cases item with
    | error e => exact ⟨p.sink.bytes_taken_nil, fun _ => rfl, absurd p.sink.holds_zero⟩
    | ok status =>
      have herrors : Feed.errors (.ok status :: rest.map (·.2)) = Feed.errors (rest.map (·.2)) :=
        rfl
      simp only [List.map_cons, Feed.leading, herrors]
      by_cases hmask : p.tracker.current.getD 0 = status.flags
      · rw [proceed_same hmask, changeLines_same names hmask]
        exact ih (p.seen notices status)
      · rw [changeLines_changed names hmask, encode_written_cons, List.length_append]
        set piece := Utf8.encode (changeLine names (p.tracker.current.getD 0) status ++ "\n")
        by_cases hfits : p.sink.Holds piece.length
        · obtain ⟨sink, hw, hbytes, htaken, hholds⟩ := Sink.write_held hfits
          obtain ⟨hmore, hheld, hover⟩ :=
            ih { p.seen notices status with sink, lines := p.lines + 1 }
          rw [proceed_changed hmask hw, htaken, ← hholds]
          refine ⟨hmore.trans ?_, fun hroom => (hheld hroom).trans ?_, hover⟩
          · simp only [hbytes, Progress.seen, Option.getD_some, List.append_assoc]
          · simp only [Progress.seen, Option.getD_some, List.length_cons, Nat.add_assoc,
              Nat.add_comm 1]
        · obtain ⟨sink, hw, hbytes⟩ := Sink.write_full hfits
          rw [proceed_full hmask hw]
          exact ⟨hbytes _, fun hroom => absurd (hroom.mono (Nat.le_add_right ..)) hfits,
            fun _ => rfl⟩

theorem changes_unlimited {σ : Type} (names : BitNames) (run : Run σ PowerStatus) {sink : Sink}
    (h : sink.room = none) :
    (changes names run sink).sink.bytes =
        sink.bytes ++ Utf8.encode (written (changeLines names 0 (Feed.leading run.items))) ∧
      (changes names run sink).result = match (Feed.errors run.items).head? with
        | some e => .error (.read e)
        | none => .ok (changeLines names 0 (Feed.leading run.items)).length := by
  obtain ⟨hbytes, hresult, -⟩ := proceed_eq names run.closing { sink } run.steps
  rw [Nat.zero_add] at hresult
  refine ⟨hbytes.trans ?_, hresult fun n hn => ?_⟩
  · rw [Sink.taken, h, Option.getD_none, List.take_length]
    rfl
  · rw [h] at hn
    cases hn

/-- The report of a run where the output has limited room. -/
theorem changes_limited {σ : Type} (names : BitNames) (run : Run σ PowerStatus) (room : Nat) :
    let full := changes names run {}
    let limited := changes names run { room := some room }
    limited.sink.bytes = full.sink.bytes.take room ∧
      (full.sink.bytes.length ≤ room → limited.result = full.result) ∧
      (room < full.sink.bytes.length → limited.result = .error (.write .outputFull)) := by
  intro full limited
  have hroom : ({} : Sink).room = none := rfl
  obtain ⟨hfull, hresult⟩ := changes_unlimited names run hroom
  obtain ⟨hbytes, hheld, hover⟩ :=
    proceed_eq names run.closing { sink := { room := some room } } run.steps
  rw [Nat.zero_add] at hheld
  replace hfull : full.sink.bytes =
      Utf8.encode (written (changeLines names 0 (Feed.leading run.items))) := hfull
  rw [hfull]
  refine ⟨hbytes, fun hle => (hheld fun n hn => ?_).trans hresult.symm,
    fun hlt => hover fun h => ?_⟩
  · exact Option.some.inj hn ▸ hle
  · exact absurd (h room rfl) (Nat.not_le_of_lt hlt)

/-- With limited room a report writes the first bytes of what it writes with room for everything,
and it ends with a failure to write unless those are all. With room for everything an error of the
source decides: what is written are the lines for the statuses before it, and without an error the
report ends with the number of its lines. -/
theorem changes_cut_short {σ : Type} (names : BitNames) (run : Run σ PowerStatus) (room : Nat) :
    let full := changes names run {}
    let limited := changes names run { room := some room }
    limited.sink.bytes = full.sink.bytes.take room ∧
      (full.sink.bytes.length ≤ room → limited.result = full.result) ∧
      (room < full.sink.bytes.length → limited.result = .error (.write .outputFull) ∧
        (ReportError.write .outputFull).message = "Failed to write output: output full") ∧
      (∀ (statuses : List PowerStatus) (e : LogError) (later : List (Except LogError PowerStatus)),
        run.items = statuses.map .ok ++ .error e :: later →
        (∀ before : Run σ PowerStatus, before.items = statuses.map .ok →
          full.sink.bytes = (changes names before {}).sink.bytes) ∧
        full.result = .error (.read e) ∧
          (ReportError.read e).chain = "Failed to read POWR record" :: e.chain) ∧
      ∀ statuses : List PowerStatus, run.items = statuses.map .ok →
        full.sink.bytes = Utf8.encode (written (changeLines names 0 statuses)) ∧
          full.result = .ok (changeLines names 0 statuses).length := by
  intro full limited
  obtain ⟨hbytes, hheld, hover⟩ := changes_limited names run room
  have hroom : ({} : Sink).room = none := rfl
  obtain ⟨hfull, hresult⟩ := changes_unlimited names run hroom
  refine ⟨hbytes, hheld, fun hlt => ⟨hover hlt, rfl⟩, ?_, fun statuses hitems => ?_⟩
  · intro statuses e later hitems
    rw [hitems, Feed.leading_map_ok_append] at hfull
    rw [hitems, Feed.errors_append, Feed.errors_map_ok] at hresult
    refine ⟨fun before hbefore => ?_, hresult, rfl⟩
    obtain ⟨hsame, -⟩ := changes_unlimited names before hroom
    rw [hbefore, Feed.leading_map_ok] at hsame
    exact hfull.trans hsame.symm
  · rw [hitems, Feed.leading_map_ok] at hfull
    rw [hitems, Feed.leading_map_ok, Feed.errors_map_ok] at hresult
    exact ⟨hfull, hresult⟩

/-- The room ends before the first line feed, and an error would come after the second line. -/
theorem changes_cut_short_midline :
    let names := BitNames.empty.withName 0 "USB_CONNECTED"
    let statuses : List PowerStatus := [{ flags := 1, time := 0 }, { flags := 3, time := 0.25 }]
    let items : List (Except LogError PowerStatus) :=
      statuses.map .ok ++ [.error (.told .invalid "corrupt"), .ok { flags := 0, time := 1 }]
    let run : Run Unit PowerStatus :=
      { steps := items.map fun item => ([], item), closing := [], final := () }
    let before : Run Unit PowerStatus :=
      { steps := statuses.map fun status => ([], .ok status), closing := [], final := () }
    let full := changes names run {}
    let limited := changes names run { room := some 39 }
    full.sink.bytes = (changes names before {}).sink.bytes ∧
      full.result = .error (.read (.told .invalid "corrupt")) ∧
      limited.sink.bytes = Utf8.encode "1970-01-01 00:00:00.00:  +USB_CONNECTED" ∧
      limited.result = .error (.write .outputFull) := by
  intro names statuses items run before full limited
  obtain ⟨hbytes, -, hover, hread, -⟩ := changes_cut_short names run 39
  obtain ⟨hbefore, hfailure⟩ := hread statuses _ [.ok { flags := 0, time := 1 }] rfl
  have hlong : 39 < full.sink.bytes.length := by decide +kernel
  have hprefix : full.sink.bytes.take 39 =
      Utf8.encode "1970-01-01 00:00:00.00:  +USB_CONNECTED" := by decide +kernel
  exact ⟨hbefore before rfl, hfailure.1, hbytes.trans hprefix, (hover hlong).1⟩

end Report

end DataFlash
