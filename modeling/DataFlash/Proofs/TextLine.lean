import DataFlash.Log.Text
import DataFlash.Proofs.Lines
import Mathlib.Tactic.Common

namespace DataFlash.TextLog

variable {table : Table String} {line : Nat} {text : List Char} {name : String}
  {spelled : List String}

def values (text : List Char) : List String := (Text.parts text).map String.ofList

theorem value_of_mem (h : name ∈ values text) :
    ',' ∉ name.toList ∧ Text.trim name.toList = name.toList := by
  obtain ⟨part, hpart, rfl⟩ := List.mem_map.mp h
  rw [String.toList_ofList]
  exact Text.part_of_mem hpart

theorem exists_values (text : List Char) : ∃ name raws, values text = name :: raws :=
  List.exists_cons_of_ne_nil (by simp [values, Text.parts, List.splitOn_ne_nil])

theorem trim_ne_nil (h : values text = "FMT" :: spelled) : Text.trim text ≠ [] := by
  intro hblank
  rw [values, Text.parts_eq_blank.mpr hblank] at h
  simp at h

theorem readLine_blank (h : Text.trim text = []) (table : Table String) (line : Nat) :
    readLine table line text = .blank := by
  rw [readLine, Text.parts_eq_blank.mpr h]

theorem readLine_eq (h : values text = name :: spelled) (hne : Text.trim text ≠ []) :
    readLine table line text =
      if name = "FMT" then
        match readDefinition line spelled with
        | .ok (d, r) => .defines d r
        | .error e => .refused e
      else
        match table.get? name with
        | none => .passedOver name (.undefined name)
        | some d => readData d line name spelled := by
  obtain ⟨part, more, hparts, rfl, rfl⟩ := List.map_eq_cons_iff.mp h
  have hblank : Text.parts text ≠ [[]] := fun heq => hne (Text.parts_eq_blank.mp heq)
  unfold readLine
  rw [hparts] at hblank ⊢
  split
  · next heq => cases heq
  · next heq => exact absurd heq hblank
  · next heq =>
    cases heq
    rfl

theorem readLine_congr {text text' : List Char} (h : Text.parts text' = Text.parts text)
    (table : Table String) (line : Nat) : readLine table line text' = readLine table line text := by
  rw [readLine, readLine, h]

theorem advance_rest (l : TextLog) (left : List (List Char)) (heard : List Notice)
    (lines : List (List Char)) :
    advance { l with rest := left } heard lines = advance l heard lines := by
  cases lines <;> rfl

def given : LineReading → Option (Except LogError Record)
  | .blank | .passedOver .. => none
  | .defines _ r | .data r => some (.ok r)
  | .refused e => some (.error e)

def learn (table : Table String) : LineReading → Table String
  | .defines d _ => table.insert d.name d
  | .blank | .passedOver .. | .data _ | .refused _ => table

theorem learn_of_given_none {table : Table String} {reading : LineReading}
    (h : given reading = none) : learn table reading = table := by
  cases reading with
  | defines d r => cases h
  | blank | passedOver | data | refused => rfl

/-- A line gives nothing and is passed, or it yields what it gives and the definitions behind it are
in force. This is so whatever lines follow it and whatever log it is in. -/
theorem advance_reading (l : TextLog) (heard : List Notice) (text : List Char) :
    let reading := readLine l.table (l.line + 1) text
    (given reading = none ∧ ∃ told heard', ∀ source rest,
      advance { l with source } heard (text :: rest) =
        advance { l with source, line := l.line + 1, told } heard' rest) ∨
    ∃ item notices, given reading = some item ∧ ∀ source rest,
      advance { l with source } heard (text :: rest) =
        { item := some item, notices
          next := { l with
            source, line := l.line + 1, rest, table := learn l.table reading } } := by
  have hpass (told : List String) (heard' : List Notice) (source rest : List (List Char)) :
      advance { l with source, line := l.line + 1, rest, told } heard' rest =
        advance { l with source, line := l.line + 1, told } heard' rest :=
    advance_rest { l with source, line := l.line + 1, told } rest heard' rest
  cases hr : readLine l.table (l.line + 1) text with
  | blank =>
    refine .inl ⟨rfl, l.told, heard, fun source rest => ?_⟩
    rw [advance]
    simp only [hr]
    exact hpass l.told heard source rest
  | passedOver name reason =>
    by_cases ht : name ∈ l.told
    · refine .inl ⟨rfl, l.told, heard, fun source rest => ?_⟩
      rw [advance]
      simp only [hr, ht, if_true]
      exact hpass l.told heard source rest
    · refine .inl ⟨rfl, name :: l.told, Notice.upTo l.limit [reason] ++ heard,
        fun source rest => ?_⟩
      rw [advance]
      simp only [hr, ht, if_false]
      exact hpass (name :: l.told) (Notice.upTo l.limit [reason] ++ heard) source rest
  | data r =>
    refine .inr ⟨.ok r, heard.reverse, rfl, fun source rest => ?_⟩
    rw [advance]
    simp only [hr]
    rfl
  | defines d r =>
    refine .inr ⟨.ok r, (Notice.upTo l.limit [.learnedOnLine d.name (l.line + 1)] ++ heard).reverse,
      rfl, fun source rest => ?_⟩
    rw [advance]
    simp only [hr]
    rfl
  | refused e =>
    refine .inr ⟨.error e, heard.reverse, rfl, fun source rest => ?_⟩
    rw [advance]
    simp only [hr]
    rfl

/-- A line is passed over or yields an item, whatever lines follow it and whatever log it is in. -/
theorem advance_cons (l : TextLog) (heard : List Notice) (text : List Char) :
    (∃ told heard', ∀ source rest, advance { l with source } heard (text :: rest) =
      advance { l with source, line := l.line + 1, told } heard' rest) ∨
    ∃ item notices table, ∀ source rest, advance { l with source } heard (text :: rest) =
      { item := some item, notices
        next := { l with source, line := l.line + 1, rest, table } } := by
  rcases advance_reading l heard text with ⟨-, told, heard', hpass⟩ | ⟨item, notices, -, hyield⟩
  · exact .inl ⟨told, heard', hpass⟩
  · exact .inr ⟨item, notices, _, hyield⟩

theorem trim_ne_nil_of_given {item : Except LogError Record}
    (h : given (readLine table line text) = some item) : Text.trim text ≠ [] := by
  intro hblank
  rw [readLine_blank hblank] at h
  cases h

end DataFlash.TextLog
