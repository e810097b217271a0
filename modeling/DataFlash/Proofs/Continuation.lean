import DataFlash.Proofs.LineEnds
import DataFlash.Proofs.Rewind

namespace DataFlash.TextLog

def extended (l : TextLog) (more : List (List Char)) : TextLog :=
  { l with source := l.source ++ more, rest := l.rest ++ more }

/-- What the lines that are left yield, they yield with more lines behind them. -/
theorem advance_append_some {l : TextLog} {heard : List Notice} {rest : List (List Char)}
    {item : Except LogError Record} (h : (advance l heard rest).item = some item)
    (more : List (List Char)) :
    advance { l with source := l.source ++ more } heard (rest ++ more) =
      { advance l heard rest with next := (advance l heard rest).next.extended more } := by
  induction rest generalizing l heard with
  | nil => cases h
  | cons text rest ih =>
    rcases advance_cons l heard text with ⟨told, heard', hpass⟩ | ⟨found, notices, table, hyield⟩
    · rw [hpass l.source rest] at h ⊢
      rw [List.cons_append, hpass]
      exact ih h
    · rw [hyield l.source rest, List.cons_append, hyield]
      rfl

/-- Where the lines that are left yield nothing, the lines behind them are read on. -/
theorem advance_append_none {l : TextLog} {heard : List Notice} {rest : List (List Char)}
    (h : (advance l heard rest).item = none) (more : List (List Char)) :
    advance { l with source := l.source ++ more } heard (rest ++ more) =
      advance ((advance l heard rest).next.extended more) (advance l heard rest).notices.reverse
        more := by
  induction rest generalizing l heard with
  | nil =>
    simp only [advance, extended, List.nil_append, List.reverse_reverse]
    exact (advance_rest { l with source := l.source ++ more } more heard more).symm
  | cons text rest ih =>
    rcases advance_cons l heard text with ⟨told, heard', hpass⟩ | ⟨found, notices, table, hyield⟩
    · rw [hpass l.source rest] at h ⊢
      rw [List.cons_append, hpass]
      exact ih h
    · rw [hyield l.source rest] at h
      cases h

theorem line_advance (l : TextLog) (heard : List Notice) (rest : List (List Char)) :
    (advance l heard rest).next.line + (advance l heard rest).next.rest.length =
      l.line + rest.length := by
  induction rest generalizing l heard with
  | nil => rfl
  | cons text rest ih =>
    rw [List.length_cons]
    rcases advance_cons l heard text with ⟨told, heard', hpass⟩ | ⟨found, notices, table, hyield⟩
    · rw [hpass l.source rest, ih]
      dsimp only
      omega
    · rw [hyield l.source rest]
      dsimp only
      omega

theorem rest_final (l : TextLog) : (Feed.run l).final.rest = [] := by
  induction l using Feed.run_induction with
  | ended l h =>
    rw [Feed.run_none h]
    exact rest_of_ended l [] l.rest h
  | pulled l item h ih =>
    rw [Feed.run_some h]
    exact ih

theorem line_final (l : TextLog) : (Feed.run l).final.line = l.line + l.rest.length := by
  have hcount : (Feed.run l).final.line + (Feed.run l).final.rest.length =
      l.line + l.rest.length :=
    Feed.run_preserves (P := fun log : TextLog =>
      log.line + log.rest.length = l.line + l.rest.length)
      (fun log h => (line_advance log [] log.rest).trans h) rfl
  rwa [rest_final] at hcount

/-- The results of a log with more lines behind it: those of the log, and then those of the lines as
they are read from where it ends. -/
theorem results_extended (l : TextLog) (more : List (List Char)) :
    Feed.results (l.extended more) =
      Feed.results l ++ Feed.results ((Feed.run l).final.extended more) := by
  have hlong (log : TextLog) : Feed.pull (log.extended more) =
      advance { log with source := log.source ++ more } [] (log.rest ++ more) :=
    advance_rest { log with source := log.source ++ more } (log.rest ++ more) [] (log.rest ++ more)
  induction l using Feed.run_induction with
  | ended l h =>
    have hrest : (Feed.pull l).next.rest = [] := rest_of_ended l [] l.rest h
    have hpull : Feed.pull (l.extended more) =
        advance ((Feed.pull l).next.extended more) (Feed.pull l).notices.reverse more :=
      (hlong l).trans (advance_append_none h more)
    have hnext : Feed.pull ((Feed.pull l).next.extended more) =
        advance ((Feed.pull l).next.extended more) [] more := by
      change advance _ [] ((Feed.pull l).next.rest ++ more) = _
      rw [hrest, List.nil_append]
    -- The two have heard different notices, which shows in their notices only.
    obtain ⟨hitem, hsame⟩ := same_advance ((Feed.pull l).next.extended more)
      (Feed.pull l).next.told [] (Feed.pull l).notices.reverse more
    rw [Feed.results_none h, Feed.run_none h, List.nil_append]
    refine Feed.results_eq ?_ ?_
    · rw [hpull, hnext]
      exact hitem
    · rw [hpull, hnext]
      exact hsame.results
  | pulled l item h ih =>
    have hpull : Feed.pull (l.extended more) =
        { Feed.pull l with next := (Feed.pull l).next.extended more } :=
      (hlong l).trans (advance_append_some h more)
    have hitem : (Feed.pull (l.extended more)).item = some item := by
      rw [hpull]
      exact h
    rw [Feed.results_some hitem, Feed.results_some h, Feed.run_some h, hpull, ih]
    rfl

/-- Bytes that end a line give the first results of a text log, with more bytes behind them. The
others are what the reader that has come to their end gives of the lines behind them, with the
definitions that it has learned and its line numbers going on. -/
theorem results_cut_at_line {front : List UInt8} (h : Utf8.EndsLine front) (back : List UInt8) :
    let behind := Text.lines (Utf8.decode back)
    let final := (Feed.run (ofBytes front)).final
    Feed.results (Log.ofBytes (front ++ back) .text) =
        Feed.results (Log.ofBytes front .text) ++ Feed.results (final.extended behind) ∧
      final.line = (Text.lines (Utf8.decode front)).length ∧
      (final.extended behind).rest = behind := by
  intro behind final
  -- The last line of the front part ends with it, so the other lines are those of the back part.
  have hlog : ofBytes (front ++ back) = (ofBytes front).extended behind := by
    rw [ofBytes, Text.lines_decode_append h]
    rfl
  have hline : final.line = 0 + (Text.lines (Utf8.decode front)).length :=
    line_final (ofBytes front)
  refine ⟨?_, by rw [hline, Nat.zero_add], ?_⟩
  · change Feed.results (Log.text (ofBytes (front ++ back))) =
      Feed.results (Log.text (ofBytes front)) ++ _
    rw [Log.results_text, Log.results_text, hlog, results_extended]
  · rw [extended, rest_final, List.nil_append]

/-- A character is cut off by the line feed, and what is behind the line feed begins within one. -/
theorem results_cut_at_line_within_characters :
    let front := Utf8.encode "FMT,64,4,P,B,A\nP,7\nP," ++ [0xE2, 0x82, 0x0A]
    let back := [0xAC] ++ Utf8.encode "P,8\r\nP,9\nP,x"
    let behind := Text.lines (Utf8.decode back)
    let final := (Feed.run (ofBytes front)).final
    Utf8.EndsLine front ∧
      Feed.errors (Feed.results (Log.ofBytes front .text)) =
        [.onLine 3 (.unreadable "\uFFFD" 'B')] ∧
      Feed.errors (Feed.results (Log.ofBytes (front ++ back) .text)) =
        [.onLine 3 (.unreadable "\uFFFD" 'B'), .onLine 6 (.unreadable "x" 'B')] ∧
      Feed.results (Log.ofBytes (front ++ back) .text) =
        Feed.results (Log.ofBytes front .text) ++ Feed.results (final.extended behind) := by
  intro front back behind final
  have hends : Utf8.EndsLine front := by decide +kernel
  exact ⟨hends, by decide +kernel, by decide +kernel, (results_cut_at_line hends back).1⟩

end DataFlash.TextLog
