import DataFlash.Proofs.Feed
import DataFlash.Proofs.Framing

namespace DataFlash.BinaryLog

/-- The same position in the same data with more bytes behind them. -/
structure Extends (more : List UInt8) (l l' : BinaryLog) : Prop where
  table : l'.table = l.table
  rest : l'.rest = l.rest ++ more

/-- A reading that yields an item does so with more bytes behind the data, and the two readings
stay in step. -/
theorem Extends.pull {more : List UInt8} {l l' : BinaryLog} (h : Extends more l l')
    {item : Except LogError Record} (hitem : l.pull.item = some item) :
    l'.pull.item = some item ∧ Extends more l.pull.next l'.pull.next := by
  rcases hs : seek l.table 0 l.rest with ⟨skipped, rest, framing⟩
  rw [pull_eq hs] at hitem ⊢
  -- Where the shorter data end there is no item, so nothing has to hold there.
  cases framing with
  | tail => cases hitem
  | noise => cases hitem
  | cut d => cases hitem
  | message typeId d payload after =>
    have hs' : seek l'.table 0 l'.rest =
        (skipped, rest ++ more, .message typeId d payload (after ++ more)) := by
      rw [h.table, h.rest]
      exact seek_append_message hs more
    rw [pull_eq hs']
    simp only [yield, h.table] at hitem ⊢
    exact ⟨hitem, rfl, rfl⟩

theorem Extends.results_prefix {more : List UInt8} {l l' : BinaryLog} (h : Extends more l l') :
    Feed.results l <+: Feed.results l' := by
  induction l using Feed.run_induction generalizing l' with
  | ended l hnone =>
    rw [Feed.results_none hnone]
    exact List.nil_prefix
  | pulled l item hitem ih =>
    obtain ⟨hitem', hnext⟩ := h.pull hitem
    rw [Feed.results_some hitem, Feed.results_some hitem']
    exact List.cons_prefix_cons.mpr ⟨rfl, ih hnext⟩

/-- Data cut anywhere give the first of the results of the whole data, and no others. -/
theorem results_prefix_of_append (bytes more : List UInt8) :
    Feed.results (ofBytes bytes) <+: Feed.results (ofBytes (bytes ++ more)) :=
  Extends.results_prefix { table := rfl, rest := rfl }

end DataFlash.BinaryLog
