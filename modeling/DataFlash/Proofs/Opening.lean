import DataFlash.Proofs.Queries

namespace DataFlash

namespace Clock

/-- The clock of the first record that gives one, unless there is an error before it. -/
def ofItems (items : List (Except LogError Record)) : Except LogError Clock :=
  match items.find? (Feed.stops fun r => (ofGps? r).isSome) with
  | none => .ok {}
  | some (.error e) => .error e
  | some (.ok r) => .ok ((ofGps? r).getD {})

theorem clock_scan {σ : Type} [Feed σ Record] (s : σ) :
    (scan s).clock = ofItems (Feed.results s) := by
  unfold scan ofItems
  rw [← Feed.find_item]
  dsimp only
  split <;> simp_all

theorem next_scan {σ : Type} [Feed σ Record] (s : σ) :
    (scan s).next = (Feed.find (fun r => (ofGps? r).isSome) s).next := by
  unfold scan
  dsimp only
  split <;> rfl

def opening (config : Config) (items : List (Except LogError Record)) : Except LogError Clock :=
  match config.clock with
  | .boot => .ok {}
  | .gpsInterpolated => ofItems items

theorem opening_ok (config : Config) (records : List Record) :
    ∃ clock, opening config (records.map .ok) = .ok clock := by
  unfold opening
  split
  · exact ⟨_, rfl⟩
  · unfold ofItems
    split
    · exact ⟨_, rfl⟩
    · rename_i e h
      have hmem := List.mem_of_find?_eq_some h
      simp at hmem
    · exact ⟨_, rfl⟩

/-- An error with no record before it that gives a clock. -/
def Prevented (items : List (Except LogError Record)) (e : LogError) : Prop :=
  ∃ (records : List Record) (rest : List (Except LogError Record)),
    items = records.map .ok ++ .error e :: rest ∧ ∀ r ∈ records, ofGps? r = none

/-- The clock of the first record that gives one, or else time since boot. -/
def first (items : List (Except LogError Record)) : Clock :=
  ((items.filterMap Except.toOption).findSome? ofGps?).getD {}

theorem Prevented.mem {items : List (Except LogError Record)} {e : LogError}
    (h : Prevented items e) : .error e ∈ items := by
  obtain ⟨records, rest, rfl, -⟩ := h
  exact List.mem_append_right _ List.mem_cons_self

theorem prevented_nil (e : LogError) : ¬ Prevented [] e := by
  rintro ⟨records, rest, h, -⟩
  simp at h

theorem prevented_cons_error {e e' : LogError} {rest : List (Except LogError Record)} :
    Prevented (.error e' :: rest) e ↔ e' = e := by
  constructor
  · rintro ⟨records, rest', h, -⟩
    cases records with
    | nil =>
      simp only [List.map_nil, List.nil_append, List.cons.injEq] at h
      exact Except.error.inj h.1
    | cons r records => simp at h
  · rintro rfl
    exact ⟨[], rest, rfl, by simp⟩

theorem prevented_cons_ok {e : LogError} {r : Record} {rest : List (Except LogError Record)} :
    Prevented (.ok r :: rest) e ↔ ofGps? r = none ∧ Prevented rest e := by
  constructor
  · rintro ⟨records, rest', h, hnone⟩
    cases records with
    | nil => simp at h
    | cons r' records =>
      simp only [List.map_cons, List.cons_append, List.cons.injEq, Except.ok.injEq] at h
      obtain ⟨rfl, hrest⟩ := h
      rw [List.forall_mem_cons] at hnone
      exact ⟨hnone.1, records, rest', hrest, hnone.2⟩
  · rintro ⟨hr, records, rest', rfl, hnone⟩
    exact ⟨r :: records, rest', rfl, List.forall_mem_cons.mpr ⟨hr, hnone⟩⟩

theorem ofItems_cons_error (e : LogError) (rest : List (Except LogError Record)) :
    ofItems (.error e :: rest) = .error e := by
  unfold ofItems
  rw [List.find?_cons_of_pos rfl]

theorem ofItems_cons_ok (r : Record) (rest : List (Except LogError Record)) :
    ofItems (.ok r :: rest) = match ofGps? r with
      | some clock => .ok clock
      | none => ofItems rest := by
  unfold ofItems
  cases h : ofGps? r with
  | none =>
    have hpass : ¬ Feed.stops (fun r => (ofGps? r).isSome) (.ok r) = true := by
      simp [Feed.stops, h]
    rw [List.find?_cons_of_neg hpass]
  | some clock =>
    have hstop : Feed.stops (fun r => (ofGps? r).isSome) (.ok r) = true := by
      simp [Feed.stops, h]
    rw [List.find?_cons_of_pos hstop]
    simp [h]

theorem ofItems_eq_error {items : List (Except LogError Record)} {e : LogError} :
    ofItems items = .error e ↔ Prevented items e := by
  induction items with
  | nil => exact iff_of_false nofun (prevented_nil e)
  | cons item rest ih =>
    cases item with
    | error e' => rw [ofItems_cons_error, prevented_cons_error, Except.error.injEq]
    | ok r =>
      rw [ofItems_cons_ok, prevented_cons_ok]
      cases ofGps? r with
      | none => simpa using ih
      | some clock => simp

theorem eq_first_of_ofItems {items : List (Except LogError Record)} {clock : Clock}
    (h : ofItems items = .ok clock) : clock = first items := by
  induction items with
  | nil => exact (Except.ok.inj h).symm
  | cons item rest ih =>
    cases item with
    | error e =>
      rw [ofItems_cons_error] at h
      cases h
    | ok r =>
      rw [ofItems_cons_ok] at h
      cases hr : ofGps? r with
      | none =>
        rw [hr] at h
        simpa [first, Except.toOption, hr] using ih h
      | some clock' =>
        rw [hr] at h
        cases h
        simp [first, Except.toOption, hr]

end Clock

namespace Reader

/-- A log whose items give a clock is opened with that clock at its start. -/
theorem on_ofBytes {bytes : List UInt8} {kind : LogKind} {config : Config} {clock : Clock}
    {items : List (Except LogError Record)} (hitems : Feed.results (Log.ofBytes bytes kind) = items)
    (hclock : Clock.opening config items = .ok clock) :
    ∃ r, (ofBytes bytes kind config).value = .ok r ∧
      r.On config clock { all := items, rest := items } := by
  have hwhole := (Log.whole_ofBytes bytes kind).trans hitems
  unfold Clock.opening at hclock
  unfold ofBytes
  cases hmode : config.clock with
  | boot =>
    rw [hmode] at hclock
    cases hclock
    exact ⟨_, rfl, rfl, rfl, hwhole, hitems⟩
  | gpsInterpolated =>
    rw [hmode] at hclock
    have hscan : (Clock.scan (Log.ofBytes bytes kind)).clock = .ok clock := by
      rw [Clock.clock_scan, hitems]
      exact hclock
    have hnext : (Clock.scan (Log.ofBytes bytes kind)).next.whole = items := by
      rw [Clock.next_scan]
      exact Feed.find_preserves (P := fun l : Log => l.whole = items)
        (fun l hl => (Log.whole_pull l).trans hl) _ hwhole
    -- The search has moved the log; rewinding it brings back all of its items.
    refine ⟨_, congrArg (Except.map _) hscan, rfl, rfl, ?_, hnext⟩
    exact (Log.whole_rewind _).trans hnext

theorem ofBytes_eq_error {bytes : List UInt8} {kind : LogKind} {config : Config} {e : LogError} :
    (ofBytes bytes kind config).value = .error e ↔
      Clock.opening config (Feed.results (Log.ofBytes bytes kind)) = .error e := by
  obtain ⟨_, mode⟩ := config
  unfold ofBytes Clock.opening
  cases mode with
  | boot => exact iff_of_false nofun nofun
  | gpsInterpolated =>
    dsimp only
    rw [← Clock.clock_scan]
    cases (Clock.scan (Log.ofBytes bytes kind)).clock <;> simp [Except.map]

/-- A reader that was opened has the clock that the items of its log give, and stands at their
start. -/
theorem on_of_ofBytes {bytes : List UInt8} {kind : LogKind} {config : Config} {r : Reader}
    (h : (ofBytes bytes kind config).value = .ok r) :
    let items := Feed.results (Log.ofBytes bytes kind)
    Clock.opening config items = .ok r.clock ∧
      r.On config r.clock { all := items, rest := items } := by
  intro items
  cases hclock : Clock.opening config items with
  | error e =>
    rw [ofBytes_eq_error.mpr hclock] at h
    cases h
  | ok clock =>
    obtain ⟨r', hr', hon⟩ := on_ofBytes rfl hclock
    obtain rfl : r' = r := Except.ok.inj (hr'.symm.trans h)
    have hc := hon.clock
    subst hc
    exact ⟨rfl, hon⟩

end Reader

end DataFlash
