import DataFlash.Notice

namespace DataFlash

/-- What one pull yields: an item or the end, the notices given on the way and the feed that is
left. -/
structure Pull (σ α : Type) where
  item : Option (Except LogError α)
  notices : List Notice
  next : σ

def Pull.after {σ α : Type} (earlier : List Notice) (p : Pull σ α) : Pull σ α :=
  { item := p.item, notices := earlier ++ p.notices, next := p.next }

/-- `remaining` bounds the items that are still to come. -/
class Feed (σ : Type) (α : outParam Type) where
  pull : σ → Pull σ α
  remaining : σ → Nat
  remaining_lt : ∀ s, (pull s).item.isSome → remaining (pull s).next < remaining s

/-- A feed read for a while: each item with the notices before it, the notices after the last
item, and the feed that is left. -/
structure Run (σ α : Type) where
  steps : List (List Notice × Except LogError α)
  closing : List Notice
  final : σ

namespace Run

variable {σ α : Type}

def items (r : Run σ α) : List (Except LogError α) := r.steps.map (·.2)

def notices (r : Run σ α) : List Notice := r.steps.flatMap (·.1) ++ r.closing

def after (earlier : List (List Notice × Except LogError α)) (r : Run σ α) : Run σ α :=
  { steps := earlier ++ r.steps, closing := r.closing, final := r.final }

theorem notices_after (earlier : List (List Notice × Except LogError α)) (r : Run σ α) :
    (r.after earlier).notices = earlier.flatMap (·.1) ++ r.notices := by
  simp [notices, after]

end Run

namespace Feed

variable {σ α : Type} [Feed σ α]

/-- Reading to the end after the steps in `done`, newest first. -/
def runFrom (s : σ) (done : List (List Notice × Except LogError α)) : Run σ α :=
  let p := pull s
  match _h : p.item with
  | none => { steps := done.reverse, closing := p.notices, final := p.next }
  | some item => runFrom p.next ((p.notices, item) :: done)
termination_by remaining s
decreasing_by exact remaining_lt s (by simp_all [p])

def run (s : σ) : Run σ α := runFrom s []

def results (s : σ) : List (Except LogError α) := (run s).items

def take : Nat → σ → Run σ α
  | 0, s => { steps := [], closing := [], final := s }
  | n + 1, s =>
    let p := pull s
    match p.item with
    | none => { steps := [], closing := p.notices, final := p.next }
    | some item => (take n p.next).after [(p.notices, item)]

/-- The next item that is an error or is kept, after the notices in `heard`, newest first. -/
def findFrom (keep : α → Bool) (s : σ) (heard : List Notice) : Pull σ α :=
  let p := pull s
  match _h : p.item with
  | some (.ok a) =>
    if keep a then p.after heard.reverse
    else findFrom keep p.next (p.notices.reverse ++ heard)
  | _ => p.after heard.reverse
termination_by remaining s
decreasing_by exact remaining_lt s (by simp_all [p])

def find (keep : α → Bool) (s : σ) : Pull σ α := findFrom keep s []

theorem runFrom_none {s : σ} {done : List (List Notice × Except LogError α)}
    (h : (pull s).item = none) :
    runFrom s done =
      { steps := done.reverse, closing := (pull s).notices, final := (pull s).next } := by
  rw [runFrom]; split <;> simp_all

theorem runFrom_some {s : σ} {done : List (List Notice × Except LogError α)}
    {item : Except LogError α} (h : (pull s).item = some item) :
    runFrom s done = runFrom (pull s).next (((pull s).notices, item) :: done) := by
  rw [runFrom]; split <;> simp_all

theorem runFrom_append (s : σ) (done older : List (List Notice × Except LogError α)) :
    runFrom s (done ++ older) = (runFrom s done).after older.reverse := by
  induction h : remaining s using Nat.strongRecOn generalizing s done with
  | ind n ih =>
    cases hp : (pull s).item with
    | none => simp [runFrom_none hp, Run.after]
    | some item =>
      rw [runFrom_some hp, runFrom_some hp, ← List.cons_append]
      exact ih _ (h ▸ remaining_lt s (by simp [hp])) _ _ rfl

theorem run_none {s : σ} (h : (pull s).item = none) :
    run s = { steps := [], closing := (pull s).notices, final := (pull s).next } :=
  runFrom_none h

/-- The first item of a run is that of the first pull, and the others are those of the run from
there. -/
theorem run_some {s : σ} {item : Except LogError α} (h : (pull s).item = some item) :
    run s = (run (pull s).next).after [((pull s).notices, item)] := by
  rw [run, runFrom_some h]
  exact runFrom_append _ [] [((pull s).notices, item)]

theorem findFrom_kept {keep : α → Bool} {s : σ} {heard : List Notice}
    (h : ∀ a, (pull s).item = some (.ok a) → keep a = true) :
    findFrom keep s heard = (pull s).after heard.reverse := by
  rw [findFrom]; split <;> simp_all

theorem findFrom_passed {keep : α → Bool} {s : σ} {heard : List Notice} {a : α}
    (ha : (pull s).item = some (.ok a)) (hk : keep a = false) :
    findFrom keep s heard = findFrom keep (pull s).next ((pull s).notices.reverse ++ heard) := by
  rw [findFrom]; split <;> simp_all

theorem kept_or_passed (keep : α → Bool) (s : σ) :
    (∀ a, (pull s).item = some (.ok a) → keep a = true) ∨
      ∃ a, (pull s).item = some (.ok a) ∧ keep a = false := by
  by_cases h : ∃ a, (pull s).item = some (.ok a) ∧ keep a = false
  · exact .inr h
  · refine .inl fun a ha => ?_
    cases hk : keep a
    · exact absurd ⟨a, ha, hk⟩ h
    · rfl

theorem findFrom_append (keep : α → Bool) (s : σ) (heard older : List Notice) :
    findFrom keep s (heard ++ older) = (findFrom keep s heard).after older.reverse := by
  induction h : remaining s using Nat.strongRecOn generalizing s heard with
  | ind n ih =>
    rcases kept_or_passed keep s with hk | ⟨a, ha, hk⟩
    · simp [findFrom_kept hk, Pull.after]
    · rw [findFrom_passed ha hk, findFrom_passed ha hk, ← List.append_assoc]
      exact ih _ (h ▸ remaining_lt s (by simp [ha])) _ _ rfl

theorem find_kept {keep : α → Bool} {s : σ}
    (h : ∀ a, (pull s).item = some (.ok a) → keep a = true) : find keep s = pull s := by
  rw [find, findFrom_kept h]; rfl

theorem find_passed {keep : α → Bool} {s : σ} {a : α} (ha : (pull s).item = some (.ok a))
    (hk : keep a = false) : find keep s = (find keep (pull s).next).after (pull s).notices := by
  rw [find, findFrom_passed ha hk]
  simpa [find] using findFrom_append keep (pull s).next [] (pull s).notices.reverse

/-- What is found uses up some of what remains, as each pull does. -/
theorem remaining_find_lt (keep : α → Bool) (s : σ) (h : (find keep s).item.isSome) :
    remaining (find keep s).next < remaining s := by
  induction hn : remaining s using Nat.strongRecOn generalizing s with
  | ind n ih =>
    subst hn
    rcases kept_or_passed keep s with hk | ⟨a, ha, hk⟩
    · rw [find_kept hk] at h ⊢
      exact remaining_lt s h
    · rw [find_passed ha hk] at h ⊢
      have hlt := remaining_lt s (by simp [ha])
      exact Nat.lt_trans (ih _ hlt _ h rfl) hlt

end Feed

end DataFlash
