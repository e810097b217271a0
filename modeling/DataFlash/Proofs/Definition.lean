import DataFlash.Definition
import Mathlib.Algebra.Ring.Nat
import Mathlib.Tactic.Common

namespace DataFlash

section Steps

variable {ε α β : Type} {first : Except ε α} {next : α → Except ε β}

theorem bind_eq_ok {b : β} : first >>= next = .ok b ↔ ∃ a, first = .ok a ∧ next a = .ok b := by
  cases first with
  | error e => simp [bind, Except.bind]
  | ok a => simp [bind, Except.bind]

theorem bind_eq_error {e : ε} :
    first >>= next = .error e ↔ first = .error e ∨ ∃ a, first = .ok a ∧ next a = .error e := by
  cases first with
  | error e => simp [bind, Except.bind]
  | ok a => simp [bind, Except.bind]

end Steps

namespace Definition

/-- Reading by a definition relies on known characters, one column for each, room for all fields,
and a length that keeps offsets within a machine word. -/
structure Sound (d : Definition) : Prop where
  known : ∀ c ∈ d.format.toList, (FieldType.ofChar? c).isSome
  columns : d.columns.length = d.format.toList.length
  room : d.needed ≤ d.length
  word : d.length ≤ 2 ^ 63 - 1

structure Matched (d : Definition) : Prop where
  known : ∀ c ∈ d.format.toList, (FieldType.ofChar? c).isSome
  columns : d.columns.length = d.format.toList.length

theorem Sound.matched {d : Definition} (h : d.Sound) : d.Matched where
  known := h.known
  columns := h.columns

theorem Sound.headerSize_le {d : Definition} (h : d.Sound) : headerSize ≤ d.length := by
  have hr := h.room
  unfold needed at hr
  omega

theorem sound_defining : defining.Sound where
  known := List.all_eq_true.mp (by decide)
  columns := by decide
  room := by decide
  word := by decide

theorem decodeField_append {c : Char} {type : FieldType} (h : FieldType.ofChar? c = some type)
    {bytes : List UInt8} (hlen : bytes.length = type.size) (rest : List UInt8) :
    decodeField c (bytes ++ rest) = .ok (type.decode bytes, rest) := by
  have hsplit : Bytes.split? type.size (bytes ++ rest) = some (bytes, rest) := by
    rw [Bytes.split?_eq, if_pos (by simp [hlen]), ← hlen]
    simp
  simp [decodeField, h, hsplit]

theorem decodeField_ok {c : Char} (h : (FieldType.ofChar? c).isSome) {payload : List UInt8}
    (hlen : (fieldSize? c).getD 0 ≤ payload.length) :
    ∃ value, decodeField c payload = .ok (value, payload.drop ((fieldSize? c).getD 0)) := by
  obtain ⟨type, ht⟩ := Option.isSome_iff_exists.mp h
  have hsize : (fieldSize? c).getD 0 = type.size := by simp [fieldSize?, ht]
  rw [hsize] at hlen ⊢
  have hd := decodeField_append ht (List.length_take_of_le hlen) (payload.drop type.size)
  rw [List.take_append_drop] at hd
  exact ⟨_, hd⟩

theorem decodeFields_ok (characters : List Char) (columns : List String) (payload : List UInt8)
    (known : ∀ c ∈ characters, (FieldType.ofChar? c).isSome)
    (room : characters.foldr (fun c size => (fieldSize? c).getD 0 + size) 0 ≤ payload.length) :
    ∃ fields, decodeFields (characters.zip columns) payload = .ok fields ∧
      fields.map (·.1) = columns.take characters.length := by
  induction characters generalizing columns payload with
  | nil => exact ⟨[], by simp [decodeFields]⟩
  | cons c more ih =>
    cases columns with
    | nil => exact ⟨[], by simp [decodeFields]⟩
    | cons column rest =>
      simp only [List.foldr_cons] at room
      have hsize : (fieldSize? c).getD 0 ≤ payload.length := by omega
      obtain ⟨value, hv⟩ := decodeField_ok (known c (by simp)) hsize
      obtain ⟨fields, hf, hc⟩ := ih rest (payload.drop ((fieldSize? c).getD 0))
        (fun c' h => known c' (by simp [h])) (by rw [List.length_drop]; omega)
      refine ⟨(column, value) :: fields, ?_, by simp [hc]⟩
      simp [decodeFields, hv, hf, bind, Except.bind, pure, Except.pure]

/-- A payload that has room for the fields is decoded, one field for each column. -/
theorem Sound.decode_ok {d : Definition} (h : d.Sound) {payload : List UInt8}
    (room : d.payloadSize ≤ payload.length) :
    ∃ fields, d.decode payload = .ok fields ∧ fields.map (·.1) = d.columns := by
  obtain ⟨fields, hf, hc⟩ := decodeFields_ok d.format.toList d.columns payload h.known room
  refine ⟨fields, hf, ?_⟩
  rw [hc, ← h.columns, List.take_length]

theorem Sound.payloadSize_le {d : Definition} (h : d.Sound) {n : Nat}
    (hn : n = d.length - headerSize) : d.payloadSize ≤ n := by
  have hr := h.room
  unfold needed at hr
  omega

theorem ofParts_eq_ok {typeId : UInt8} {length : Nat} {name format columns : String}
    {d : Definition} :
    ofParts typeId length name format columns = .ok d ↔
      (∀ c ∈ format.toList, (FieldType.ofChar? c).isSome) ∧
        (columnsOf columns).length = format.toList.length ∧
        d = { typeId, length, name, format, columns := columnsOf columns } := by
  unfold ofParts
  cases hf : format.toList.find? fun c => (FieldType.ofChar? c).isNone with
  | some c =>
    have hc := List.find?_some hf
    have hm := List.mem_of_find?_eq_some hf
    simp only [reduceCtorEq, false_iff, not_and]
    intro hk
    have := hk c hm
    simp_all
  | none =>
    have hk : ∀ c ∈ format.toList, (FieldType.ofChar? c).isSome := by
      intro c hc
      have := List.find?_eq_none.mp hf c hc
      simpa [Option.isSome_iff_ne_none] using this
    by_cases hl : (columnsOf columns).length = format.toList.length
    · simp only [hl, ne_eq, not_true_eq_false, if_false, Except.ok.injEq]
      constructor
      · intro h
        exact ⟨hk, trivial, h.symm⟩
      · rintro ⟨-, -, h⟩
        exact h.symm
    · simp [hl]

theorem matched_of_ofParts {typeId : UInt8} {length : Nat} {name format columns : String}
    {d : Definition} (h : ofParts typeId length name format columns = .ok d) : d.Matched := by
  obtain ⟨known, count, rfl⟩ := ofParts_eq_ok.mp h
  exact { known, columns := count }

def columnParts (list : String) : List (List Char) :=
  (Text.parts list.toList).filter fun part => part ≠ []

theorem columnsOf_eq (list : String) : columnsOf list = (columnParts list).map String.ofList := by
  rw [columnsOf, columnParts, ← List.filterMap_eq_map, List.filterMap_filter]
  congr 1
  funext part
  cases part <;> rfl

theorem ofParts_eq_error_iff {typeId : UInt8} {length : Nat} {name format columns : String} :
    (∃ e, ofParts typeId length name format columns = .error e) ↔
      (∃ c ∈ format.toList, FieldType.ofChar? c = none) ∨
        (columnParts columns).length ≠ format.toList.length := by
  have hok : (∃ d, ofParts typeId length name format columns = .ok d) ↔
      (∀ c ∈ format.toList, (FieldType.ofChar? c).isSome) ∧
        (columnParts columns).length = format.toList.length := by
    simp only [ofParts_eq_ok, columnsOf_eq, List.length_map]
    exact ⟨fun ⟨_, hk, hc, _⟩ => ⟨hk, hc⟩, fun ⟨hk, hc⟩ => ⟨_, hk, hc, rfl⟩⟩
  have hnot : (∃ e, ofParts typeId length name format columns = .error e) ↔
      ¬ ∃ d, ofParts typeId length name format columns = .ok d := by
    cases ofParts typeId length name format columns <;> simp
  rw [hnot, hok, not_and_or]
  simp

theorem ofParts_error_kind {typeId : UInt8} {length : Nat} {name format columns : String}
    {e : LogError} (h : ofParts typeId length name format columns = .error e) :
    e.kind = .malformed := by
  unfold ofParts at h
  dsimp only at h
  split at h
  · cases h
    rfl
  · split at h
    · cases h
      rfl
    · cases h

theorem ofRecord_eq (r : Record) : ofRecord r =
    number r "Type" >>= fun t =>
      if t < 0 ∨ 256 ≤ t then .error .typeNotByte else
    number r "Length" >>= fun n =>
      if n < 0 then .error .negativeLength else
    text r "Name" >>= fun name =>
    text r "Format" >>= fun format =>
    text r "Columns" >>= fun columns =>
    ofParts (UInt8.ofNat t.toNat) n.toNat name format columns >>= fun d =>
      if d.length < d.needed then .error (.lengthTooSmall d.name d.length d.needed) else .ok d :=
  rfl

/-- The checks that a record with a type, a length and three texts still has to pass. -/
theorem ofRecord_of_fields {r : Record} {t n : Nat} {name format columns : String}
    (htype : number r "Type" = .ok (t : Int)) (ht : t < 256)
    (hlength : number r "Length" = .ok (n : Int)) (hname : text r "Name" = .ok name)
    (hformat : text r "Format" = .ok format) (hcolumns : text r "Columns" = .ok columns) :
    ofRecord r = ofParts (UInt8.ofNat t) n name format columns >>= fun d =>
      if d.length < d.needed then .error (.lengthTooSmall d.name d.length d.needed) else .ok d := by
  rw [ofRecord_eq]
  simp only [htype, hlength, hname, hformat, hcolumns, bind, Except.bind]
  rw [if_neg (by omega), if_neg (by omega)]
  rfl

theorem number_lt {r : Record} {column : String} {n : Int} (h : number r column = .ok n) :
    n.toNat < 2 ^ 63 := by
  unfold number at h
  obtain ⟨v, -, hv⟩ := bind_eq_ok.mp h
  split at hv
  · cases hv
    have hlt := Int64.toInt_lt ‹Int64›
    omega
  · cases hv

theorem ofRecord_eq_ok {r : Record} {d : Definition} (h : ofRecord r = .ok d) :
    ∃ columns, ofParts d.typeId d.length d.name d.format columns = .ok d ∧ d.needed ≤ d.length ∧
      d.length < 2 ^ 63 := by
  rw [ofRecord_eq] at h
  obtain ⟨t, -, h⟩ := bind_eq_ok.mp h
  split at h
  · cases h
  obtain ⟨n, hn, h⟩ := bind_eq_ok.mp h
  split at h
  · cases h
  obtain ⟨name, -, h⟩ := bind_eq_ok.mp h
  obtain ⟨format, -, h⟩ := bind_eq_ok.mp h
  obtain ⟨columns, -, h⟩ := bind_eq_ok.mp h
  obtain ⟨d', hd, h⟩ := bind_eq_ok.mp h
  split at h
  · cases h
  · next hroom =>
    cases h
    have hlt := number_lt hn
    obtain ⟨-, -, rfl⟩ := ofParts_eq_ok.mp hd
    exact ⟨columns, hd, Nat.le_of_not_lt hroom, hlt⟩

theorem sound_of_ofRecord {r : Record} {d : Definition} (h : ofRecord r = .ok d) : d.Sound := by
  obtain ⟨columns, hparts, room, hlt⟩ := ofRecord_eq_ok h
  have hmatched := matched_of_ofParts hparts
  exact { known := hmatched.known, columns := hmatched.columns, room, word := by omega }

theorem require_error_kind {r : Record} {column : String} {e : LogError}
    (h : r.require column = .error e) : e.kind = .missingField := by
  unfold Record.require at h
  split at h
  · cases h
  · cases h
    rfl

theorem number_error_kind {r : Record} {column : String} {e : LogError}
    (h : number r column = .error e) : e.kind ≠ .io := by
  unfold number at h
  rcases bind_eq_error.mp h with h | ⟨v, -, h⟩
  · simp [require_error_kind h]
  · split at h
    · cases h
    · cases h
      simp [LogError.kind]

theorem text_error_kind {r : Record} {column : String} {e : LogError}
    (h : text r column = .error e) : e.kind ≠ .io := by
  unfold text at h
  rcases bind_eq_error.mp h with h | ⟨v, -, h⟩
  · simp [require_error_kind h]
  · cases h

/-- A record is refused for what it says, never for want of bytes. -/
theorem ofRecord_error_kind {r : Record} {e : LogError} (h : ofRecord r = .error e) :
    e.kind ≠ .io := by
  rw [ofRecord_eq] at h
  rcases bind_eq_error.mp h with h | ⟨t, -, h⟩
  · exact number_error_kind h
  split at h
  · cases h
    decide
  rcases bind_eq_error.mp h with h | ⟨n, -, h⟩
  · exact number_error_kind h
  split at h
  · cases h
    decide
  rcases bind_eq_error.mp h with h | ⟨name, -, h⟩
  · exact text_error_kind h
  rcases bind_eq_error.mp h with h | ⟨format, -, h⟩
  · exact text_error_kind h
  rcases bind_eq_error.mp h with h | ⟨columns, -, h⟩
  · exact text_error_kind h
  rcases bind_eq_error.mp h with h | ⟨d, -, h⟩
  · simp [ofParts_error_kind h]
  split at h
  · cases h
    simp [LogError.kind]
  · cases h

end Definition

end DataFlash
