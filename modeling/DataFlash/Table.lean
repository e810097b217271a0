import DataFlash.Definition

namespace DataFlash

structure Table (κ : Type) where
  entries : List (κ × Definition) := []

namespace Table

variable {κ : Type} [DecidableEq κ]

def get? (t : Table κ) (key : κ) : Option Definition := t.entries.lookup key

/-- A new definition takes the place of the one with its key. -/
def insert (t : Table κ) (key : κ) (d : Definition) : Table κ :=
  { entries := (key, d) :: t.entries.filter fun e => !(e.1 == key) }

theorem lookup_filter_ne {key other : κ} (h : other ≠ key)
    (entries : List (κ × Definition)) :
    (entries.filter fun e => !(e.1 == key)).lookup other = entries.lookup other := by
  induction entries with
  | nil => rfl
  | cons e rest ih =>
    obtain ⟨k, d⟩ := e
    by_cases hk : k = key
    · have hne : (other == key) = false := by simpa using h
      subst hk
      simp [List.lookup_cons, hne, ih]
    · simp [hk, List.lookup_cons, ih]

theorem get?_insert (t : Table κ) (key other : κ) (d : Definition) :
    (t.insert key d).get? other = if other = key then some d else t.get? other := by
  by_cases h : other = key
  · subst h
    simp [get?, insert]
  · have hne : (other == key) = false := by simpa using h
    simp [get?, insert, List.lookup_cons, hne, h, lookup_filter_ne h]

end Table

end DataFlash
