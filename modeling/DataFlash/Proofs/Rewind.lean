import DataFlash.Log
import DataFlash.Proofs.Feed
import DataFlash.Proofs.Invariant
import DataFlash.Proofs.TextLine

namespace DataFlash

namespace BinaryLog

/-- Where a reading ends, so few bytes are left that it ends there again. -/
theorem pull_next_ended {l : BinaryLog} (h : l.pull.item = none) :
    l.pull.next.pull.item = none := by
  -- A message that is cut short leaves no bytes, and otherwise too few for a header are left.
  have hshort : l.pull.next.rest.length < headerSize := by
    obtain ⟨noise, rest, -, hne, hs⟩ := seek_spec l.table 0 l.rest
    rw [pull_eq hs] at h ⊢
    cases hf : frame l.table rest with
    | tail => exact length_lt_of_frame_tail hf
    | noise => exact absurd hf hne
    | cut d => simp [yield, headerSize]
    | message typeId d payload after => simp [hf, yield] at h
  have hframe := frame_tail_of_length_lt l.pull.next.table hshort
  rw [pull_eq (seek_of_frame_ne_noise (by simp [hframe]) 0), hframe]
  rfl

instance : Feed.Lasting BinaryLog where
  results_next _ h := Feed.results_none (pull_next_ended h)

end BinaryLog

namespace TextLog

theorem rest_of_ended (l : TextLog) (heard : List Notice) (rest : List (List Char))
    (h : (advance l heard rest).item = none) : (advance l heard rest).next.rest = [] := by
  induction rest generalizing l heard with
  | nil => rfl
  | cons text rest ih =>
    rcases advance_cons l heard text with ⟨told, heard', hpass⟩ | ⟨item, notices, table, hyield⟩
    · rw [hpass l.source rest] at h ⊢
      exact ih _ _ h
    · rw [hyield l.source rest] at h
      cases h

instance : Feed.Lasting TextLog where
  results_next l h := by
    have hrest : l.pull.next.rest = [] := rest_of_ended l [] l.rest h
    have hitem : l.pull.next.pull.item = none := by
      rw [pull, hrest]
      rfl
    exact Feed.results_none hitem

/-- The same position in the same log, whatever has been told. -/
def Same (l l' : TextLog) : Prop := ∃ told, l' = { l with told }

theorem same_advance (l : TextLog) (told : List String) (heard heard' : List Notice)
    (rest : List (List Char)) :
    (advance { l with told } heard' rest).item = (advance l heard rest).item ∧
      Same (advance l heard rest).next (advance { l with told } heard' rest).next := by
  induction rest generalizing l told heard heard' with
  | nil => exact ⟨rfl, told, rfl⟩
  | cons text rest ih =>
    unfold advance
    dsimp only
    cases readLine l.table (l.line + 1) text with
    | blank => exact ih { l with line := l.line + 1, rest } told heard heard'
    | passedOver name reason =>
      -- The two logs may differ in whether the reason has been told.
      dsimp only
      split <;> split <;> exact ih { l with line := l.line + 1, rest, told := _ } _ _ _
    | data r => exact ⟨rfl, told, rfl⟩
    | defines d r => exact ⟨rfl, told, rfl⟩
    | refused e => exact ⟨rfl, told, rfl⟩

theorem Same.pull {l l' : TextLog} (h : Same l l') :
    l'.pull.item = l.pull.item ∧ Same l.pull.next l'.pull.next := by
  obtain ⟨told, rfl⟩ := h
  exact same_advance l told [] [] l.rest

theorem Same.results {l l' : TextLog} (h : Same l l') : Feed.results l' = Feed.results l :=
  Feed.results_congr (R := Same) (fun _ _ h => h.pull) h

theorem results_cons {l : TextLog} {text : List Char} {rest : List (List Char)}
    (h : l.rest = text :: rest) :
    let reading := readLine l.table (l.line + 1) text
    Feed.results l = (given reading).toList ++
      Feed.results { l with line := l.line + 1, rest, table := learn l.table reading } := by
  have hpull : Feed.pull l = advance l [] (text :: rest) := h ▸ rfl
  rcases advance_reading l [] text with
    ⟨hnone, told, heard', hpass⟩ | ⟨item, notices, hsome, hyield⟩
  · -- Whether a reason has been told does not show in the results.
    rw [hpass l.source rest, ← advance_rest { l with line := l.line + 1, told } rest] at hpull
    obtain ⟨hitem, hnext⟩ := same_advance { l with line := l.line + 1, rest } told [] heard' rest
    dsimp only
    rw [learn_of_given_none hnone, hnone]
    refine Feed.results_eq (hpull ▸ hitem) ?_
    rw [hpull]
    exact hnext.results
  · rw [hyield l.source rest] at hpull
    dsimp only
    rw [Feed.results_some (by rw [hpull]), hpull, hsome]
    rfl

theorem source_advance (l : TextLog) (heard : List Notice) (rest : List (List Char)) :
    (l.advance heard rest).next.source = l.source := by
  induction rest generalizing l heard with
  | nil => rfl
  | cons text rest ih =>
    rcases advance_cons l heard text with ⟨told, heard', hpass⟩ | ⟨item, notices, table, hyield⟩
    · rw [hpass l.source rest, ih]
    · rw [hyield l.source rest]

theorem limit_advance (l : TextLog) (heard : List Notice) (rest : List (List Char)) :
    (l.advance heard rest).next.limit = l.limit := by
  induction rest generalizing l heard with
  | nil => rfl
  | cons text rest ih =>
    rcases advance_cons l heard text with ⟨told, heard', hpass⟩ | ⟨item, notices, table, hyield⟩
    · rw [hpass l.source rest, ih]
    · rw [hyield l.source rest]

/-- Rewinding gives the same results wherever a log has been read to. -/
theorem results_rewind_pull (l : TextLog) :
    Feed.results l.pull.next.rewind = Feed.results l.rewind := by
  have hsource : l.pull.next.source = l.source := source_advance l [] l.rest
  have hlimit : l.pull.next.limit = l.limit := limit_advance l [] l.rest
  refine Same.results ⟨l.pull.next.told, ?_⟩
  simp only [rewind, hsource, hlimit]

end TextLog

namespace Log

theorem results_binary (l : BinaryLog) : Feed.results (binary l) = Feed.results l := by
  apply Feed.results_congr (R := fun l log => log = binary l) _ rfl
  rintro l log rfl
  exact ⟨rfl, rfl⟩

theorem results_text (l : TextLog) : Feed.results (text l) = Feed.results l := by
  apply Feed.results_congr (R := fun l log => log = text l) _ rfl
  rintro l log rfl
  exact ⟨rfl, rfl⟩

instance : Feed.Lasting Log where
  results_next
    | binary l, h => (results_binary _).trans (Feed.Lasting.results_next l h)
    | text l, h => (results_text _).trans (Feed.Lasting.results_next l h)

def whole (l : Log) : List (Except LogError Record) := Feed.results l.rewind

@[simp] theorem whole_rewind (l : Log) : l.rewind.whole = l.whole := by
  cases l <;> rfl

theorem whole_pull (l : Log) : l.pull.next.whole = l.whole := by
  cases l with
  | binary l =>
    have hrewind : l.pull.next.rewind = l.rewind := by simp [BinaryLog.rewind]
    simp only [whole, pull, rewind, hrewind]
  | text l =>
    simp only [whole, pull, rewind, results_text]
    exact TextLog.results_rewind_pull l

theorem whole_ofBytes (bytes : List UInt8) (kind : LogKind) :
    (ofBytes bytes kind).whole = Feed.results (ofBytes bytes kind) := by
  cases kind <;> rfl

end Log

end DataFlash
