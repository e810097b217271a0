import DataFlash.Proofs.Stream

namespace DataFlash

inductive Demand where
  | next
  | receive (name : String)
  | messages (name : String) (atMost : Nat)
  | drain

namespace Demand

def query : Demand → Query
  | next => .next
  | receive name => .receive name
  | messages name atMost => .messages name atMost
  | drain => .drain

/-- The records that are wanted. What is asked for by name is not filtered. -/
def wants (config : Config) : Demand → Record → Bool
  | next, r | drain, r => config.admits r.name
  | receive name, r | messages name _, r => r.name == name

def limit : Demand → Option Nat
  | next | receive _ => some 1
  | messages _ atMost => some atMost
  | drain => none

end Demand

/-- A pull with the cursor at `i`: what it gives and where it leaves the cursor. It passes the items
at which it does not stop, and the cursor is left just behind the item that is given or at the
end. -/
inductive PullAt (items : List (Except LogError Record)) (keep : Record → Bool) (i : Nat) :
    Option (Except LogError Record) → Nat → Prop where
  | found {passed rest : List (Except LogError Record)} {item : Except LogError Record}
      (split : items.drop i = passed ++ item :: rest)
      (passes : ∀ x ∈ passed, Feed.stops keep x = false) (stops : Feed.stops keep item = true) :
      PullAt items keep i (some item) (i + passed.length + 1)
  | ended (passes : ∀ x ∈ items.drop i, Feed.stops keep x = false) :
      PullAt items keep i none items.length

/-- Pulls one after another, no more than a limit and none after one that finds the end. -/
inductive PullsAt (items : List (Except LogError Record)) (keep : Record → Bool) :
    Option Nat → Nat → List (Except LogError Record) → Nat → Prop where
  | enough {i : Nat} : PullsAt items keep (some 0) i [] i
  | ended {limit : Option Nat} {i j : Nat} (more : limit ≠ some 0)
      (pull : PullAt items keep i none j) : PullsAt items keep limit i [] j
  | item {limit : Option Nat} {i j k : Nat} {item : Except LogError Record}
      {others : List (Except LogError Record)} (more : limit ≠ some 0)
      (pull : PullAt items keep i (some item) j)
      (pulls : PullsAt items keep (limit.map (· - 1)) j others k) :
      PullsAt items keep limit i (item :: others) k

/-- Demands one after another with the items that each is given, from one position of the cursor to
another. -/
inductive Walk (config : Config) (items : List (Except LogError Record)) :
    Nat → List Demand → List (List (Except LogError Record)) → Nat → Prop where
  | nil {i : Nat} : Walk config items i [] [] i
  | cons {i j k : Nat} {demand : Demand} {demands : List Demand}
      {given : List (Except LogError Record)} {others : List (List (Except LogError Record))}
      (pulls : PullsAt items (demand.wants config) demand.limit i given j)
      (walk : Walk config items j demands others k) :
      Walk config items i (demand :: demands) (given :: others) k

/-- From one position to another some of the items in between are given, in their order, and no
error is left out. -/
def Given (items given : List (Except LogError Record)) (i j : Nat) : Prop :=
  ∃ between, items.drop i = between ++ items.drop j ∧ given.Sublist between ∧
    Feed.errors given = Feed.errors between

variable {items : List (Except LogError Record)} {keep : Record → Bool}

theorem errors_passed {passed : List (Except LogError Record)}
    (h : ∀ x ∈ passed, Feed.stops keep x = false) : Feed.errors passed = [] := by
  refine List.filterMap_eq_nil_iff.mpr fun x hx => ?_
  cases x with
  | ok r => rfl
  | error e => cases h _ hx

theorem Given.refl (i : Nat) : Given items [] i i := ⟨[], rfl, List.Sublist.refl _, rfl⟩

theorem Given.append {given more : List (Except LogError Record)} {i j k : Nat}
    (h : Given items given i j) (h' : Given items more j k) : Given items (given ++ more) i k := by
  obtain ⟨between, hdrop, hsub, herr⟩ := h
  obtain ⟨between', hdrop', hsub', herr'⟩ := h'
  refine ⟨between ++ between', ?_, hsub.append hsub', ?_⟩
  · rw [hdrop, hdrop', List.append_assoc]
  · rw [Feed.errors_append, Feed.errors_append, herr, herr']

theorem drop_behind {i : Nat} {passed rest : List (Except LogError Record)}
    {item : Except LogError Record} (h : items.drop i = passed ++ item :: rest) :
    items.drop (i + passed.length + 1) = rest := by
  rw [Nat.add_assoc, ← List.drop_drop, h, List.drop_append]
  simp

theorem PullAt.given {i j : Nat} {item : Option (Except LogError Record)}
    (h : PullAt items keep i item j) : Given items item.toList i j := by
  cases h with
  | @found passed rest item split passes stops =>
    refine ⟨passed ++ [item], ?_, List.sublist_append_right _ _, ?_⟩
    · rw [drop_behind split, split, List.append_assoc]
      rfl
    · rw [Feed.errors_append, errors_passed passes]
      rfl
  | ended passes =>
    refine ⟨items.drop i, ?_, List.nil_sublist _, (errors_passed passes).symm⟩
    rw [List.drop_length, List.append_nil]

theorem PullsAt.given {limit : Option Nat} {i j : Nat} {given : List (Except LogError Record)}
    (h : PullsAt items keep limit i given j) : Given items given i j := by
  induction h with
  | enough => exact .refl _
  | ended more pull => exact pull.given
  | item more pull pulls ih => exact pull.given.append ih

theorem Walk.given {config : Config} {i j : Nat} {demands : List Demand}
    {given : List (List (Except LogError Record))} (h : Walk config items i demands given j) :
    Given items given.flatten i j := by
  induction h with
  | nil => exact .refl _
  | cons pulls walk ih => exact pulls.given.append ih

namespace Reader

variable {r : Reader} {i : Nat}

/-- A search is a pull with the cursor where the reader stands. -/
theorem find_pullAt (h : r.stream = items.drop i) (keep : String → Bool) :
    ∃ j, PullAt items (keep ·.name) i (r.find keep).item j ∧
      (r.find keep).next.stream = items.drop j := by
  have hitem := find_item_stream keep r
  have hnext := stream_find keep r
  rw [h] at hitem hnext
  cases hfind : (items.drop i).find? (Feed.stops (keep ·.name)) with
  | none =>
    have hpass : ∀ x ∈ items.drop i, Feed.stops (fun r => keep r.name) x = false := by
      simpa using List.find?_eq_none.mp hfind
    refine ⟨items.length, ?_, ?_⟩
    · rw [hitem, hfind]
      exact .ended hpass
    · rw [hnext, List.dropWhile_eq_nil_iff.mpr (by simpa using hpass), List.drop_length]
      rfl
  | some item =>
    obtain ⟨hstop, passed, rest, hsplit, hpass⟩ := List.find?_eq_some_iff_append.mp hfind
    have hpass' : ∀ x ∈ passed, Feed.stops (fun r => keep r.name) x = false := by
      simpa using hpass
    refine ⟨i + passed.length + 1, ?_, ?_⟩
    · rw [hitem, hfind]
      exact .found hsplit hpass' hstop
    · rw [hnext, drop_behind hsplit, hsplit, List.dropWhile_append_of_pos hpass,
        List.dropWhile_cons_of_neg (by simp [hstop]), List.tail_cons]

theorem take_pullsAt {m : Messages} (h : m.reader.stream = items.drop i) (n : Nat) :
    ∃ j, PullsAt items (·.name == m.name) (some n) i (Feed.take n m).items j ∧
      (Feed.take n m).final.reader.stream = items.drop j ∧
      (Feed.take n m).final.reader.config = m.reader.config := by
  induction n generalizing m i with
  | zero => exact ⟨i, .enough, h, rfl⟩
  | succ n ih =>
    obtain ⟨j, hpull, hnext⟩ := find_pullAt h (· == m.name)
    cases hitem : (Feed.pull m).item with
    | none =>
      have hnone : (m.reader.find (· == m.name)).item = none := hitem
      rw [hnone] at hpull
      simp only [Feed.take, hitem]
      exact ⟨j, .ended (by simp) hpull, hnext, rfl⟩
    | some item =>
      have hsome : (m.reader.find (· == m.name)).item = some item := hitem
      rw [hsome] at hpull
      obtain ⟨k, hpulls, hfinal, hconfig⟩ := ih (m := (Feed.pull m).next) hnext
      simp only [Feed.take, hitem]
      exact ⟨k, .item (by simp) hpull hpulls, hfinal, hconfig⟩

theorem run_pullsAt (h : r.stream = items.drop i) :
    ∃ j, PullsAt items (r.config.admits ·.name) none i (Feed.run r).items j ∧
      (Feed.run r).final.stream = items.drop j ∧ (Feed.run r).final.config = r.config := by
  -- The cursor moves with the reader, so the induction along the run carries it.
  induction r using Feed.run_induction generalizing i with
  | ended r hnone =>
    obtain ⟨j, hpull, hnext⟩ := find_pullAt h r.config.admits
    have hitem : (r.find r.config.admits).item = none := hnone
    rw [hitem] at hpull
    rw [Feed.run_none hnone]
    exact ⟨j, .ended (by simp) hpull, hnext, rfl⟩
  | pulled r item hsome ih =>
    obtain ⟨j, hpull, hnext⟩ := find_pullAt h r.config.admits
    have hitem : (r.find r.config.admits).item = some item := hsome
    rw [hitem] at hpull
    obtain ⟨k, hpulls, hfinal, hconfig⟩ := ih hnext
    rw [Feed.run_some hsome]
    exact ⟨k, .item (by simp) hpull hpulls, hfinal, hconfig⟩

theorem pullsAt_once {item : Option (Except LogError Record)} {j : Nat}
    (h : PullAt items keep i item j) : PullsAt items keep (some 1) i item.toList j := by
  cases item with
  | none => exact .ended (by simp) h
  | some item => exact .item (by simp) h .enough

theorem ask_pullsAt (h : r.stream = items.drop i) (demand : Demand) :
    ∃ j, PullsAt items (demand.wants r.config) demand.limit i (r.ask demand.query).1 j ∧
      (r.ask demand.query).2.stream = items.drop j ∧
      (r.ask demand.query).2.config = r.config := by
  cases demand with
  | next =>
    obtain ⟨j, hpull, hnext⟩ := find_pullAt h r.config.admits
    exact ⟨j, pullsAt_once hpull, hnext, rfl⟩
  | receive name =>
    obtain ⟨j, hpull, hnext⟩ := find_pullAt h (· == name)
    exact ⟨j, pullsAt_once hpull, hnext, rfl⟩
  | messages name atMost => exact take_pullsAt (m := r.messages name) h atMost
  | drain => exact run_pullsAt h

/-- A reader answers demands by walking along the items, and stands where the walk ends. -/
theorem answers_walk (h : r.stream = items.drop i) (demands : List Demand) :
    ∃ j, Walk r.config items i demands (r.answers (demands.map Demand.query)) j ∧
      (r.after (demands.map Demand.query)).stream = items.drop j := by
  induction demands generalizing r i with
  | nil => exact ⟨i, .nil, h⟩
  | cons demand demands ih =>
    obtain ⟨j, hpulls, hnext, hconfig⟩ := ask_pullsAt h demand
    obtain ⟨k, hwalk, hafter⟩ := ih hnext
    rw [hconfig] at hwalk
    exact ⟨k, .cons hpulls hwalk, hafter⟩

/-- Whatever is asked of an open log and in whatever order, one cursor walks along the items that it
has without a filter. Behind the cursor every error has been given once and every record at most
once, in their order. The filter changes neither the items nor the time base, and a reader that
admits one name alone gives what is asked for by that name. -/
theorem demands_share_cursor {bytes : List UInt8} {kind : LogKind} {config : Config} {r : Reader}
    (h : (ofBytes bytes kind config).value = .ok r) (demands : List Demand) :
    let given := r.answers (demands.map Demand.query)
    (∃ i, Walk config r.stream 0 demands given i ∧
      (r.after (demands.map Demand.query)).stream = r.stream.drop i ∧
      given.flatten.Sublist (r.stream.take i) ∧
      Feed.errors given.flatten = Feed.errors (r.stream.take i)) ∧
    (∀ filter, ∃ other,
      (ofBytes bytes kind { config with typeFilter := filter }).value = .ok other ∧
        other.clock.timebase = r.clock.timebase ∧ other.stream = r.stream) ∧
    ∀ name, ∃ filtered unfiltered,
      (ofBytes bytes kind { config with typeFilter := some [name] }).value = .ok filtered ∧
        (ofBytes bytes kind { config with typeFilter := none }).value = .ok unfiltered ∧
        Feed.results filtered = Feed.results (unfiltered.messages name) := by
  intro given
  have hopen : ∀ filter, (ofBytes bytes kind { config with typeFilter := filter }).value =
      .ok (r.withFilter filter) := by
    intro filter
    rw [ofBytes_withFilter, h]
    rfl
  refine ⟨?_, fun filter => ⟨r.withFilter filter, hopen filter, rfl, rfl⟩, fun name =>
    ⟨r.withFilter (some [name]), r.withFilter none, hopen _, hopen _, ?_⟩⟩
  · have hstart : r.stream = r.stream.drop 0 := rfl
    obtain ⟨i, hwalk, hafter⟩ := answers_walk hstart demands
    rw [(on_of_ofBytes h).2.config] at hwalk
    obtain ⟨between, hsplit, hsub, herrors⟩ := hwalk.given
    have hboth : between ++ r.stream.drop i = r.stream.take i ++ r.stream.drop i := by
      rw [← hsplit, List.drop_zero, List.take_append_drop]
    have hbetween : between = r.stream.take i := List.append_cancel_right hboth
    rw [hbetween] at hsub herrors
    exact ⟨i, hwalk, hafter, hsub, herrors⟩
  · have hnames : ∀ record : Record, (r.withFilter (some [name])).config.admits record.name =
        (record.name == name) := by
      intro record
      exact Bool.eq_iff_iff.mpr (by simp [withFilter, Config.admits])
    rw [results_eq, results_messages]
    simp only [hnames]
    rfl

theorem demands_share_cursor_lateFault :
    let demands : List Demand := [.next, .receive "FMT", .messages "GPS" 2, .drain]
    ∃ r, (ofBytes lateFault .text { typeFilter := some ["GPS"] }).value = .ok r ∧
      (r.answers (demands.map Demand.query)).map List.length = [1, 1, 1, 0] ∧
      ∃ i, Walk { typeFilter := some ["GPS"] } r.stream 0 demands
          (r.answers (demands.map Demand.query)) i ∧
        Feed.errors (r.answers (demands.map Demand.query)).flatten =
          Feed.errors (r.stream.take i) := by
  intro demands
  have hlengths : (ofBytes lateFault .text { typeFilter := some ["GPS"] }).value.toOption.map
      (fun r => (r.answers (demands.map Demand.query)).map List.length) = some [1, 1, 1, 0] := by
    decide +kernel
  cases hr : (ofBytes lateFault .text { typeFilter := some ["GPS"] }).value with
  | error e => simp [hr, Except.toOption] at hlengths
  | ok r =>
    obtain ⟨⟨i, hwalk, -, -, herrors⟩, -, -⟩ := demands_share_cursor hr demands
    rw [hr] at hlengths
    exact ⟨r, rfl, Option.some.inj hlengths, i, hwalk, herrors⟩

end Reader

end DataFlash
