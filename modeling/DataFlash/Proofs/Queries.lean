import DataFlash.Proofs.Rewind
import DataFlash.Reader
import Mathlib.Data.List.TakeWhile

namespace DataFlash

inductive Query where
  | next
  | receive (name : String)
  /-- At most so many of the records of a name. -/
  | messages (name : String) (atMost : Nat)
  | drain
  | rewind

namespace Reader

def ask (r : Reader) : Query → List (Except LogError Record) × Reader
  | .next => (r.next.item.toList, r.next.next)
  | .receive name => ((r.receive name).item.toList, (r.receive name).next)
  | .messages name atMost =>
    let run := Feed.take atMost (r.messages name)
    (run.items, run.final.reader)
  | .drain =>
    let run := Feed.run r
    (run.items, run.final)
  | .rewind => ([], r.rewind)

def answers (r : Reader) : List Query → List (List (Except LogError Record))
  | [] => []
  | query :: more => (r.ask query).1 :: (r.ask query).2.answers more

def after (r : Reader) (queries : List Query) : Reader :=
  queries.foldl (fun r query => (r.ask query).2) r

end Reader

/-- The items of a log, all of them and those that are still to come. -/
structure Tape where
  all : List (Except LogError Record)
  rest : List (Except LogError Record)

namespace Tape

def find (keep : Record → Bool) (t : Tape) : Option (Except LogError Record) × Tape :=
  (t.rest.find? (Feed.stops keep),
    { t with rest := (t.rest.dropWhile (!Feed.stops keep ·)).tail })

def take (keep : Record → Bool) : Nat → Tape → List (Except LogError Record) × Tape
  | 0, t => ([], t)
  | n + 1, t =>
    match (t.find keep).1 with
    | none => ([], (t.find keep).2)
    | some item => (item :: (take keep n (t.find keep).2).1, (take keep n (t.find keep).2).2)

theorem find_none {keep : Record → Bool} {t : Tape} (h : (t.find keep).1 = none) :
    t.rest.filter (Feed.stops keep) = [] ∧ (t.find keep).2 = { t with rest := [] } := by
  have hall := List.find?_eq_none.mp h
  have hdrop : t.rest.dropWhile (!Feed.stops keep ·) = [] :=
    List.dropWhile_eq_nil_iff.mpr (by simpa using hall)
  refine ⟨List.filter_eq_nil_iff.mpr hall, ?_⟩
  rw [find, hdrop, List.tail_nil]

theorem find_some {keep : Record → Bool} {t : Tape} {item : Except LogError Record}
    (h : (t.find keep).1 = some item) :
    t.rest.filter (Feed.stops keep) = item :: (t.find keep).2.rest.filter (Feed.stops keep) := by
  obtain ⟨all, rest⟩ := t
  simp only [find] at h ⊢
  induction rest with
  | nil => cases h
  | cons first rest ih =>
    cases hf : Feed.stops keep first with
    | true =>
      rw [List.find?_cons_of_pos hf] at h
      cases h
      simp [hf]
    | false =>
      rw [List.find?_cons_of_neg (by simp [hf])] at h
      simp [hf, ih h]

def ask (config : Config) (t : Tape) : Query → List (Except LogError Record) × Tape
  | .next => ((t.find (config.admits ·.name)).1.toList, (t.find (config.admits ·.name)).2)
  | .receive name => ((t.find (·.name == name)).1.toList, (t.find (·.name == name)).2)
  | .messages name atMost => t.take (·.name == name) atMost
  | .drain => (t.rest.filter (Feed.stops (config.admits ·.name)), { t with rest := [] })
  | .rewind => ([], { t with rest := t.all })

def answers (config : Config) (t : Tape) : List Query → List (List (Except LogError Record))
  | [] => []
  | query :: more => (t.ask config query).1 :: (t.ask config query).2.answers config more

theorem all_take (keep : Record → Bool) (n : Nat) (t : Tape) : (t.take keep n).2.all = t.all := by
  induction n generalizing t with
  | zero => rfl
  | succ n ih =>
    unfold take
    split
    · rfl
    · exact ih (t.find keep).2

theorem all_ask (config : Config) (t : Tape) (query : Query) :
    (t.ask config query).2.all = t.all := by
  cases query with
  | messages name atMost => exact all_take _ atMost t
  | next => rfl
  | receive name => rfl
  | drain => rfl
  | rewind => rfl

end Tape

namespace Reader

structure On (r : Reader) (config : Config) (clock : Clock) (t : Tape) : Prop where
  config : r.config = config
  clock : r.clock = clock
  all : r.log.whole = t.all
  rest : Feed.results r.log = t.rest

variable {r : Reader} {config : Config} {clock : Clock} {t : Tape}

theorem On.find (h : r.On config clock t) (keep : String → Bool) :
    (r.find keep).item = (t.find (keep ·.name)).1.map (Except.map clock.stamp) ∧
      (r.find keep).next.On config clock (t.find (keep ·.name)).2 := by
  refine ⟨?_, h.config, h.clock, ?_, ?_⟩
  · simp only [Reader.find, Feed.find_item, h.rest, h.clock, Tape.find]
  · exact Feed.find_preserves (P := fun l : Log => l.whole = t.all)
      (fun l hl => (Log.whole_pull l).trans hl) _ h.all
  · simp only [Reader.find, Feed.results_find, h.rest, Tape.find]

theorem On.next (h : r.On config clock t) :
    r.next.item = (t.find (config.admits ·.name)).1.map (Except.map clock.stamp) ∧
      r.next.next.On config clock (t.find (config.admits ·.name)).2 := by
  unfold Reader.next
  rw [h.config]
  exact h.find config.admits

theorem On.take {m : Messages} (h : m.reader.On config clock t) (n : Nat) :
    (Feed.take n m).items = (t.take (·.name == m.name) n).1.map (Except.map clock.stamp) ∧
      (Feed.take n m).final.reader.On config clock (t.take (·.name == m.name) n).2 := by
  induction n generalizing m t with
  | zero => exact ⟨rfl, h⟩
  | succ n ih =>
    obtain ⟨hitem, hnext⟩ := h.find (· == m.name)
    cases hfind : (t.find (·.name == m.name)).1 with
    | none =>
      have hpull : (Feed.pull m).item = none := by
        rw [hfind] at hitem
        exact hitem
      simp only [Feed.take, hpull, Tape.take, hfind]
      exact ⟨rfl, hnext⟩
    | some item =>
      have hpull : (Feed.pull m).item = some (Except.map clock.stamp item) := by
        rw [hfind] at hitem
        exact hitem
      have hmore := ih (m := (Feed.pull m).next) hnext
      simp only [Feed.take, hpull, Tape.take, hfind, List.map_cons]
      exact ⟨congrArg _ hmore.1, hmore.2⟩

theorem On.run (h : r.On config clock t) :
    (Feed.run r).items =
        (t.rest.filter (Feed.stops (config.admits ·.name))).map (Except.map clock.stamp) ∧
      (Feed.run r).final.On config clock { t with rest := [] } := by
  -- The tape moves with the reader, so the induction along the run carries it.
  induction r using Feed.run_induction generalizing t with
  | ended r hnone =>
    obtain ⟨hitem, hnext⟩ := h.next
    have hfind : (t.find (config.admits ·.name)).1 = none := by
      rw [← Option.map_eq_none_iff, ← hitem]
      exact hnone
    obtain ⟨hfilter, hrest⟩ := Tape.find_none hfind
    rw [hrest] at hnext
    rw [Feed.run_none hnone, hfilter]
    exact ⟨rfl, hnext⟩
  | pulled r item hsome ih =>
    obtain ⟨hitem, hnext⟩ := h.next
    have hmap : (t.find (config.admits ·.name)).1.map (Except.map clock.stamp) = some item :=
      hitem.symm.trans hsome
    obtain ⟨first, hfind, hfirst⟩ := Option.map_eq_some_iff.mp hmap
    obtain ⟨hitems, hfinal⟩ := ih hnext
    rw [Feed.run_some hsome, Tape.find_some hfind, List.map_cons, hfirst, ← hitems]
    exact ⟨rfl, hfinal⟩

theorem On.ask (h : r.On config clock t) (query : Query) :
    (r.ask query).1 = (t.ask config query).1.map (Except.map clock.stamp) ∧
      (r.ask query).2.On config clock (t.ask config query).2 := by
  cases query with
  | next =>
    obtain ⟨hitem, hnext⟩ := h.next
    refine ⟨?_, hnext⟩
    simp only [Reader.ask, Tape.ask, hitem, Option.toList_map]
  | receive name =>
    obtain ⟨hitem, hnext⟩ := h.find (· == name)
    refine ⟨?_, hnext⟩
    simp only [Reader.ask, Reader.receive, Tape.ask, hitem, Option.toList_map]
  | messages name atMost => exact On.take (m := r.messages name) h atMost
  | drain => exact h.run
  | rewind => exact ⟨rfl, h.config, h.clock, (Log.whole_rewind r.log).trans h.all, h.all⟩

/-- A reader answers from its tape. -/
theorem On.answers (h : r.On config clock t) (queries : List Query) :
    r.answers queries = (t.answers config queries).map (List.map (Except.map clock.stamp)) := by
  induction queries generalizing r t with
  | nil => rfl
  | cons query more ih =>
    obtain ⟨hitems, hnext⟩ := h.ask query
    rw [Reader.answers, Tape.answers, List.map_cons, hitems, ih hnext]

theorem On.after (h : r.On config clock t) (queries : List Query) :
    ∃ rest, (r.after queries).On config clock { all := t.all, rest } := by
  induction queries generalizing r t with
  | nil => exact ⟨t.rest, h⟩
  | cons query queries ih =>
    obtain ⟨rest, hafter⟩ := ih (h.ask query).2
    rw [Tape.all_ask] at hafter
    exact ⟨rest, hafter⟩

theorem On.rewind (h : r.On config clock t) : r.rewind.On config clock { t with rest := t.all } :=
  (h.ask .rewind).2

end Reader

end DataFlash
