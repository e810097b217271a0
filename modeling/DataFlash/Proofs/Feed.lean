import DataFlash.Feed

namespace DataFlash.Feed

variable {σ α : Type} [Feed σ α]

theorem results_none {s : σ} (h : (pull s).item = none) : results s = [] := by
  simp [results, Run.items, run_none h]

theorem results_some {s : σ} {item : Except LogError α} (h : (pull s).item = some item) :
    results s = item :: results (pull s).next := by
  simp [results, Run.items, run_some h, Run.after]

theorem item_eq_head? (s : σ) : (pull s).item = (results s).head? := by
  cases h : (pull s).item with
  | none => rw [results_none h, List.head?_nil]
  | some item => rw [results_some h, List.head?_cons]

/-- Induction along a run: a feed at its end, and a feed whose next item is followed by a run. -/
theorem run_induction {motive : σ → Prop} (ended : ∀ s, (pull s).item = none → motive s)
    (pulled : ∀ s item, (pull s).item = some item → motive (pull s).next → motive s) (s : σ) :
    motive s := by
  induction hn : remaining s using Nat.strongRecOn generalizing s with
  | ind n ih =>
    cases h : (pull s).item with
    | none => exact ended s h
    | some item =>
      have hlt := remaining_lt s (by simp [h])
      exact pulled s item h (ih _ (hn ▸ hlt) _ rfl)

theorem results_eq {τ : Type} [Feed τ α] {s : σ} {t : τ} (hitem : (pull t).item = (pull s).item)
    (hnext : results (pull t).next = results (pull s).next) : results t = results s := by
  cases h : (pull s).item with
  | none => rw [results_none h, results_none (hitem.trans h)]
  | some item => rw [results_some h, results_some (hitem.trans h), hnext]

/-- Feeds that yield the same item and stay related have the same results. -/
theorem results_congr {τ : Type} [Feed τ α] {R : σ → τ → Prop}
    (step : ∀ s t, R s t → (pull t).item = (pull s).item ∧ R (pull s).next (pull t).next)
    {s : σ} {t : τ} (h : R s t) : results t = results s := by
  induction s using run_induction generalizing t with
  | ended s hnone =>
    have hnone' := (step s t h).1.trans hnone
    rw [results_none hnone, results_none hnone']
  | pulled s item _ ih =>
    obtain ⟨hitem, hnext⟩ := step s t h
    exact results_eq hitem (ih hnext)

def errors (items : List (Except LogError α)) : List LogError :=
  items.filterMap fun
    | .error e => some e
    | .ok _ => none

def leading : List (Except LogError α) → List α
  | .ok a :: rest => a :: leading rest
  | .error _ :: _ | [] => []

theorem errors_append (items more : List (Except LogError α)) :
    errors (items ++ more) = errors items ++ errors more := List.filterMap_append

theorem mem_errors {items : List (Except LogError α)} {e : LogError} :
    e ∈ errors items ↔ .error e ∈ items := by
  constructor
  · intro h
    obtain ⟨item, hmem, he⟩ := List.mem_filterMap.mp h
    cases item with
    | ok a => cases he
    | error e' => exact Option.some.inj he ▸ hmem
  · exact fun h => List.mem_filterMap.mpr ⟨_, h, rfl⟩

theorem eq_error_of_errors {item : Option (Except LogError α)} {e : LogError}
    (h : errors item.toList = [e]) : item = some (.error e) :=
  Option.mem_toList.mp (mem_errors.mp (h ▸ List.mem_singleton_self e))

theorem leading_map_ok (values : List α) : leading (values.map .ok) = values := by
  induction values with
  | nil => rfl
  | cons a values ih => rw [List.map_cons, leading, ih]

theorem errors_map_ok (values : List α) : errors (values.map .ok) = [] := by
  rw [List.eq_nil_iff_forall_not_mem]
  intro e he
  simp [mem_errors] at he

theorem leading_map_ok_append (values : List α) (e : LogError) (rest : List (Except LogError α)) :
    leading (values.map .ok ++ .error e :: rest) = values := by
  induction values with
  | nil => rfl
  | cons a values ih => rw [List.map_cons, List.cons_append, leading, ih]

def stops (keep : α → Bool) : Except LogError α → Bool
  | .ok a => keep a
  | .error _ => true

theorem stops_of_kept {keep : α → Bool} {s : σ} {item : Except LogError α}
    (h : (pull s).item = some item) (hk : ∀ a, (pull s).item = some (.ok a) → keep a = true) :
    stops keep item = true := by
  cases item with
  | ok a => exact hk a h
  | error e => rfl

/-- A search finds the first of the results at which it stops. -/
theorem find_item (keep : α → Bool) (s : σ) :
    (find keep s).item = (results s).find? (stops keep) := by
  induction s using run_induction with
  | ended s h => rw [find_kept (by simp [h]), h, results_none h, List.find?_nil]
  | pulled s item h ih =>
    rcases kept_or_passed keep s with hk | ⟨a, ha, hk⟩
    · have hstop := stops_of_kept h hk
      rw [find_kept hk, results_some h, List.find?_cons_of_pos hstop, h]
    · have hpass : ¬ stops keep (.ok a) = true := by simp [stops, hk]
      rw [find_passed ha hk, results_some ha, List.find?_cons_of_neg hpass]
      exact ih

/-- A feed whose end lasts: nothing comes after it. -/
class Lasting (σ : Type) {α : Type} [Feed σ α] : Prop where
  results_next : ∀ s : σ, (pull s).item = none → results (pull s).next = []

theorem results_pull [Lasting σ] (s : σ) : results (pull s).next = (results s).tail := by
  cases h : (pull s).item with
  | none => rw [Lasting.results_next s h, results_none h, List.tail_nil]
  | some item => rw [results_some h, List.tail_cons]

theorem results_final [Lasting σ] (s : σ) : results (run s).final = [] := by
  induction s using run_induction with
  | ended s h =>
    rw [run_none h]
    exact Lasting.results_next s h
  | pulled s item h ih =>
    rw [run_some h]
    exact ih

/-- The results after a search are those behind the one that was found. -/
theorem results_find [Lasting σ] (keep : α → Bool) (s : σ) :
    results (find keep s).next = ((results s).dropWhile (!stops keep ·)).tail := by
  induction s using run_induction with
  | ended s h =>
    rw [find_kept (by simp [h]), results_pull, results_none h, List.dropWhile_nil]
  | pulled s item h ih =>
    rcases kept_or_passed keep s with hk | ⟨a, ha, hk⟩
    · have hstop := stops_of_kept h hk
      rw [find_kept hk, results_some h, List.dropWhile_cons_of_neg (by simp [hstop]),
        List.tail_cons]
    · have hpass : stops keep (.ok a) = false := hk
      rw [find_passed ha hk, results_some ha, List.dropWhile_cons_of_pos (by simp [hpass])]
      exact ih

theorem take_succ {s : σ} {item : Except LogError α} (h : (pull s).item = some item) (n : Nat) :
    take (n + 1) s = (take n (pull s).next).after [((pull s).notices, item)] := by
  simp only [take, h]

/-- Behind the first items of a run the next pull is that of its next item. -/
theorem pull_take {s : σ} {i : Nat} {notices : List Notice} {item : Except LogError α}
    (h : (run s).steps[i]? = some (notices, item)) :
    (pull (take i s).final).item = some item ∧ (pull (take i s).final).notices = notices ∧
      (take (i + 1) s).final = (pull (take i s).final).next := by
  induction s using run_induction generalizing i with
  | ended s hnone =>
    rw [run_none hnone] at h
    cases h
  | pulled s first hsome ih =>
    rw [run_some hsome] at h
    rw [take_succ hsome]
    cases i with
    | zero =>
      cases h
      exact ⟨hsome, rfl, rfl⟩
    | succ i =>
      rw [take_succ hsome]
      exact ih h

theorem pull_take_length (s : σ) :
    (pull (take (run s).steps.length s).final).item = none ∧
      (pull (take (run s).steps.length s).final).notices = (run s).closing := by
  induction s using run_induction with
  | ended s hnone =>
    rw [run_none hnone]
    exact ⟨hnone, rfl⟩
  | pulled s item hsome ih =>
    have hlength : (run s).steps.length = (run (pull s).next).steps.length + 1 := by
      rw [run_some hsome]
      rfl
    rw [hlength, take_succ hsome, run_some hsome]
    exact ih

/-- A relation between a feed, the notices of a reading and the feed that is left. It holds of every
pull, and of two readings one after the other if it holds of both. -/
structure Composes (R : σ → List Notice → σ → Prop) : Prop where
  refl : ∀ s, R s [] s
  trans : ∀ {s t u : σ} {notices later : List Notice},
    R s notices t → R t later u → R s (notices ++ later) u
  pull : ∀ s, R s (pull s).notices (pull s).next

namespace Composes

variable {R : σ → List Notice → σ → Prop}

theorem find (h : Composes R) (keep : α → Bool) (s : σ) :
    R s (find keep s).notices (find keep s).next := by
  induction s using run_induction with
  | ended s hnone =>
    rw [find_kept (by simp [hnone])]
    exact h.pull s
  | pulled s item _ ih =>
    rcases kept_or_passed keep s with hk | ⟨a, ha, hk⟩
    · rw [find_kept hk]
      exact h.pull s
    · rw [find_passed ha hk]
      exact h.trans (h.pull s) ih

theorem run (h : Composes R) (s : σ) : R s (run s).notices (run s).final := by
  induction s using run_induction with
  | ended s hnone =>
    rw [run_none hnone]
    exact h.pull s
  | pulled s item hsome ih =>
    rw [run_some hsome, Run.notices_after, List.flatMap_singleton]
    exact h.trans (h.pull s) ih

theorem take (h : Composes R) (n : Nat) (s : σ) : R s (take n s).notices (take n s).final := by
  induction n generalizing s with
  | zero => exact h.refl s
  | succ n ih =>
    cases hitem : (Feed.pull s).item with
    | none =>
      simp only [Feed.take, hitem]
      exact h.pull s
    | some item =>
      rw [take_succ hitem, Run.notices_after, List.flatMap_singleton]
      exact h.trans (h.pull s) (ih _)

theorem comap {τ β : Type} [Feed τ β] (h : Composes R) (f : τ → σ)
    (hpull : ∀ t : τ, R (f t) (Feed.pull t).notices (f (Feed.pull t).next)) :
    Composes fun (t : τ) notices t' => R (f t) notices (f t') where
  refl t := h.refl (f t)
  trans := h.trans
  pull := hpull

end Composes

theorem composes_preserving {P : σ → Prop} (step : ∀ s, P s → P (pull s).next) :
    Composes fun (s : σ) _ t => P s → P t where
  refl _ h := h
  trans h hmore hs := hmore (h hs)
  pull := step

/-- What every pull preserves, a search preserves. -/
theorem find_preserves {P : σ → Prop} (step : ∀ s, P s → P (pull s).next) (keep : α → Bool)
    {s : σ} (h : P s) : P (find keep s).next :=
  (composes_preserving step).find keep s h

theorem run_preserves {P : σ → Prop} (step : ∀ s, P s → P (pull s).next) {s : σ} (h : P s) :
    P (run s).final :=
  (composes_preserving step).run s h

end DataFlash.Feed
