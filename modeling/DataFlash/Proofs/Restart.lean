import DataFlash.Proofs.Cursor
import DataFlash.Proofs.Stream

namespace DataFlash

namespace Log

inductive Call where
  | pull
  | scan
  | drain
  | rewind

inductive Reply where
  | item (item : Option (Except LogError Record))
  | clock (clock : Except LogError Clock)
  | items (items : List (Except LogError Record))
  | rewound

def perform (l : Log) : Call → Reply × Log
  | .pull => (.item l.pull.item, l.pull.next)
  | .scan => (.clock (Clock.scan l).clock, (Clock.scan l).next)
  | .drain => (.items (Feed.run l).items, (Feed.run l).final)
  | .rewind => (.rewound, l.rewind)

def replies (l : Log) : List Call → List Reply
  | [] => []
  | call :: more => (l.perform call).1 :: (l.perform call).2.replies more

def after (l : Log) (calls : List Call) : Log := calls.foldl (fun l call => (l.perform call).2) l

/-- Logs that give the same items, from where they stand and from their start. -/
structure Alike (l l' : Log) : Prop where
  whole : l.whole = l'.whole
  results : Feed.results l = Feed.results l'

theorem whole_perform (l : Log) (call : Call) : (l.perform call).2.whole = l.whole := by
  have hstep : ∀ l' : Log, l'.whole = l.whole → (Feed.pull l').next.whole = l.whole :=
    fun l' h => (whole_pull l').trans h
  cases call with
  | pull => exact whole_pull l
  | scan =>
    simp only [perform, Clock.next_scan]
    exact Feed.find_preserves hstep _ rfl
  | drain => exact Feed.run_preserves hstep rfl
  | rewind => exact whole_rewind l

theorem whole_after (l : Log) (calls : List Call) : (l.after calls).whole = l.whole := by
  induction calls generalizing l with
  | nil => rfl
  | cons call calls ih => exact (ih (l.perform call).2).trans (whole_perform l call)

/-- Logs that are alike reply alike and stay alike. -/
theorem Alike.perform {l l' : Log} (h : Alike l l') (call : Call) :
    (l.perform call).1 = (l'.perform call).1 ∧ Alike (l.perform call).2 (l'.perform call).2 := by
  have hwhole : (l.perform call).2.whole = (l'.perform call).2.whole := by
    rw [whole_perform, whole_perform, h.whole]
  cases call with
  | pull =>
    refine ⟨congrArg Reply.item ?_, hwhole, ?_⟩
    · exact (Feed.item_eq_head? l).trans (h.results ▸ (Feed.item_eq_head? l').symm)
    · exact (Feed.results_pull l).trans (h.results ▸ (Feed.results_pull l').symm)
  | scan =>
    refine ⟨congrArg Reply.clock ?_, hwhole, ?_⟩
    · rw [Clock.clock_scan, Clock.clock_scan, h.results]
    · simp only [Log.perform, Clock.next_scan, Feed.results_find, h.results]
  | drain =>
    refine ⟨congrArg Reply.items h.results, hwhole, ?_⟩
    exact (Feed.results_final l).trans (Feed.results_final l').symm
  | rewind => exact ⟨rfl, hwhole, h.whole⟩

theorem Alike.replies {l l' : Log} (h : Alike l l') (calls : List Call) :
    l.replies calls = l'.replies calls := by
  induction calls generalizing l l' with
  | nil => rfl
  | cons call calls ih =>
    obtain ⟨hreply, hnext⟩ := h.perform call
    rw [Log.replies, Log.replies, hreply, ih hnext]

/-- Whatever was done with a log, it is rewound to what it was made as. -/
theorem alike_rewind_after (bytes : List UInt8) (kind : LogKind) (calls : List Call) :
    Alike ((ofBytes bytes kind).after calls).rewind (ofBytes bytes kind) where
  whole := (whole_rewind _).trans (whole_after _ calls)
  results := (whole_after _ calls).trans (whole_ofBytes bytes kind)

end Log

/-- A log that is rewound replies to all further calls as the fresh log does, and a reader that is
rewound answers all further queries as when it was opened: whatever was pulled, scanned, found to be
in error, read to the end or rewound before. -/
theorem rewind_starts_over (bytes : List UInt8) (kind : LogKind) :
    (∀ before later, ((Log.ofBytes bytes kind).after before).rewind.replies later =
        (Log.ofBytes bytes kind).replies later) ∧
      ∀ config r, (Reader.ofBytes bytes kind config).value = .ok r →
        ∀ before later, (r.after before).rewind.answers later = r.answers later := by
  refine ⟨fun before later => ?_, fun config r h before later => ?_⟩
  · exact (Log.alike_rewind_after bytes kind before).replies later
  · have hon := (Reader.on_of_ofBytes h).2
    obtain ⟨rest, hafter⟩ := hon.after before
    rw [hafter.rewind.answers, hon.answers]

/-- Neither a definition of definitions learned nor one refused outlasts a rewind. -/
theorem rewind_starts_over_widerDefinitions :
    ∃ r, (Reader.ofBytes Cursor.widerDefinitions .binary { clock := .boot }).value = .ok r ∧
      (r.after [.next, .drain, .rewind, .receive "BAD", .next]).rewind.answers [.next, .drain] =
        r.answers [.next, .drain] ∧
      (r.answers [.next, .drain]).map (List.map Except.isOk) = [[true], [false]] := by
  obtain ⟨-, hreader⟩ := rewind_starts_over Cursor.widerDefinitions .binary
  exact ⟨_, rfl, hreader { clock := .boot } _ rfl _ _, by decide +kernel⟩

end DataFlash
