import DataFlash.Proofs.Cursor
import DataFlash.Proofs.NextMessage
import DataFlash.Proofs.Places

namespace DataFlash

namespace Definition

def spelledLength (payload : List UInt8) : Nat := (payload.getD 1 0).toNat

def spelledFormat (payload : List UInt8) : String := Bytes.toText ((payload.drop 6).take 16)

def spelledColumns (payload : List UInt8) : String := Bytes.toText ((payload.drop 22).take 64)

/-- A payload that defines no message: a character has no type, the columns are not as many as the
characters, or the length leaves no room for the fields. -/
def Faulty (payload : List UInt8) : Prop :=
  (∃ c ∈ (spelledFormat payload).toList, FieldType.ofChar? c = none) ∨
    (columnParts (spelledColumns payload)).length ≠ (spelledFormat payload).toList.length ∨
    spelledLength payload < headerSize + fieldsSize (spelledFormat payload).toList

theorem decode_definition {d : Definition} (hformat : d.format = defining.format)
    (hcolumns : d.columns = defining.columns) {payload : List UInt8}
    (room : d.payloadSize ≤ payload.length) :
    ∃ typeId name, typeId < 256 ∧ d.decode payload = .ok [("Type", .uint (UInt64.ofNat typeId)),
      ("Length", .uint (UInt64.ofNat (spelledLength payload))), ("Name", .text name),
      ("Format", .text (spelledFormat payload)), ("Columns", .text (spelledColumns payload))] := by
  obtain ⟨typeId, length, name, format, columns⟩ := d
  obtain rfl : format = defining.format := hformat
  obtain rfl : columns = defining.columns := hcolumns
  have hsize : defining.payloadSize = 86 := by decide
  have hroom : 86 ≤ payload.length := hsize ▸ room
  obtain ⟨first, second, rest, rfl⟩ : ∃ first second rest, payload = first :: second :: rest := by
    match payload, hroom with
    | first :: second :: rest, _ => exact ⟨first, second, rest, rfl⟩
  obtain ⟨values, hdecode, hplace⟩ := Matched.decode_inPlace sound_defining.matched room
  have htype := hplace.value 0 'B' (.unsigned 1) rfl rfl
  have hlength := hplace.value 1 'B' (.unsigned 1) rfl rfl
  have hname := hplace.value 2 'n' (.text 4) rfl rfl
  have hformat := hplace.value 3 'N' (.text 16) rfl rfl
  have hcolumns := hplace.value 4 'Z' (.text 64) rfl rfl
  refine ⟨first.toNat, Bytes.toText (((first :: second :: rest).drop 2).take 4), first.toNat_lt, ?_⟩
  match values, hplace.count with
  | [v₀, v₁, v₂, v₃, v₄], _ =>
    cases htype
    cases hlength
    cases hname
    cases hformat
    cases hcolumns
    exact hdecode

/-- A definition in that layout is decoded, and it is refused if it is faulty. -/
theorem refused_iff_faulty {d : Definition} (hformat : d.format = defining.format)
    (hcolumns : d.columns = defining.columns) {payload : List UInt8}
    (room : d.payloadSize ≤ payload.length) :
    ∃ fields, d.decode payload = .ok fields ∧
      ((∃ e, ofRecord { name := d.name, fields } = .error e) ↔ Faulty payload) ∧
      ∀ e, ofRecord { name := d.name, fields } = .error e → e.kind = .malformed := by
  obtain ⟨typeId, name, htypeId, hdecode⟩ := decode_definition hformat hcolumns room
  refine ⟨_, hdecode, ?_⟩
  have hbyte : spelledLength payload < 256 := UInt8.toNat_lt _
  set r : Record := { name := d.name, fields := _ }
  have hname : text r "Name" = .ok name := rfl
  have hformat : text r "Format" = .ok (spelledFormat payload) := rfl
  have hcolumns : text r "Columns" = .ok (spelledColumns payload) := rfl
  rw [ofRecord_of_fields (number_of_get? rfl (Nat.le_of_lt_succ htypeId)) htypeId
    (number_of_get? rfl (Nat.le_of_lt_succ hbyte)) hname hformat hcolumns]
  have hiff := @ofParts_eq_error_iff (UInt8.ofNat typeId) (spelledLength payload) name
    (spelledFormat payload) (spelledColumns payload)
  cases hparts : ofParts (UInt8.ofNat typeId) (spelledLength payload) name (spelledFormat payload)
      (spelledColumns payload) with
  | error e =>
    have hfaulty := hiff.mp ⟨e, hparts⟩
    refine ⟨iff_of_true ⟨e, rfl⟩ (or_assoc.mp (.inl hfaulty)), fun e' he => ?_⟩
    cases he
    exact ofParts_error_kind hparts
  | ok learned =>
    obtain ⟨-, -, hlearned⟩ := ofParts_eq_ok.mp hparts
    have hneeded : learned.length < learned.needed ↔
        spelledLength payload < headerSize + fieldsSize (spelledFormat payload).toList := by
      rw [hlearned]
      rfl
    -- Only the length can still be wrong.
    have hfaulty : Faulty payload ↔ learned.length < learned.needed := by
      rw [Faulty, ← or_assoc, ← hiff, hneeded, hparts]
      simp
    rw [hfaulty]
    simp only [bind, Except.bind]
    split
    · next hshort => exact ⟨iff_of_true ⟨_, rfl⟩ hshort, fun e he => by cases he; rfl⟩
    · next hroom => exact ⟨iff_of_false (by simp) hroom, fun e he => by cases he⟩

end Definition

namespace BinaryLog

variable {l : BinaryLog} {start : Nat} {typeId : UInt8} {d : Definition} {payload : List UInt8}

theorem Coherent.error_iff_faulty (h : l.Coherent)
    (hd : l.table.get? Definition.defining.typeId = some d)
    (hformat : d.format = Definition.defining.format)
    (hcolumns : d.columns = Definition.defining.columns) :
    ((∃ e, l.pull.item = some (.error e)) ↔ ∃ start payload,
      l.Next start Definition.defining.typeId d payload ∧ Definition.Faulty payload) ∧
    ∀ e, l.pull.item = some (.error e) → e.kind = .malformed := by
  have hrefused {start : Nat} {payload : List UInt8}
      (hn : l.Next start Definition.defining.typeId d payload) :
      ((∃ e, l.pull.item = some (.error e)) ↔ Definition.Faulty payload) ∧
        ∀ e, l.pull.item = some (.error e) → e.kind = .malformed := by
    obtain ⟨fields, hdecode, hiff, hkind⟩ :=
      Definition.refused_iff_faulty hformat hcolumns (h.payloadSize_le hn)
    simp only [h.item_definition hn hdecode]
    exact ⟨hiff, hkind⟩
  refine ⟨⟨fun ⟨e, he⟩ => ?_, fun ⟨start, payload, hn, hfaulty⟩ => ?_⟩, fun e he => ?_⟩
  · obtain ⟨start, payload, hn⟩ := h.next_of_error hd he
    exact ⟨start, payload, hn, (hrefused hn).1.mp ⟨e, he⟩⟩
  · exact (hrefused hn).1.mpr hfaulty
  · obtain ⟨start, payload, hn⟩ := h.next_of_error hd he
    exact (hrefused hn).2 e he

/-- While definitions are read in the layout that all logs start with, a call yields an error if and
only if the next message is a definition that is faulty, and the error says so. A message with data
is always a record, and where there is no whole message the log ends. -/
theorem pull_error_iff_faulty (bytes : List UInt8) (calls : List Cursor.Call) :
    let l := calls.foldl Cursor.perform (ofBytes bytes)
    (∀ d, l.table.get? Definition.defining.typeId = some d →
        d.format = Definition.defining.format → d.columns = Definition.defining.columns →
          ((∃ e, l.pull.item = some (.error e)) ↔ ∃ start payload,
            l.Next start Definition.defining.typeId d payload ∧ Definition.Faulty payload) ∧
          ∀ e, l.pull.item = some (.error e) → e.kind = .malformed) ∧
      (∀ start typeId d payload, l.Next start typeId d payload →
        typeId ≠ Definition.defining.typeId → ∃ r, l.pull.item = some (.ok r)) ∧
      ((∀ start typeId d payload, ¬ l.Next start typeId d payload) → l.pull.item = none) := by
  intro l
  have h : l.Coherent := Cursor.coherent_foldl bytes calls
  refine ⟨fun d hd hformat hcolumns => h.error_iff_faulty hd hformat hcolumns,
    fun start typeId d payload hn hne => ?_, fun hnone => ?_⟩
  · obtain ⟨fields, -, hitem⟩ := h.item_data hn hne
    exact ⟨_, hitem⟩
  · by_contra hsome
    obtain ⟨item, hitem⟩ := Option.ne_none_iff_exists'.mp hsome
    obtain ⟨start, typeId, d, payload, hn⟩ := h.exists_next hitem
    exact hnone start typeId d payload hn

/-- The layout is defined anew with one byte more, which does not change what is read by it. The
definition behind it declares four bytes where its fields take six. -/
theorem pull_error_iff_faulty_longer :
    let longer := { Definition.defining with length := 90 }
    let short : Definition :=
      { typeId := 5, length := 4, name := "AB", format := "BH", columns := ["x", "y"] }
    let bytes := longer.message ++ [0x95, 0xA3] ++ short.message ++ [0x00]
    let l := [Cursor.Call.pull].foldl Cursor.perform (ofBytes bytes)
    l.table.get? Definition.defining.typeId = some longer ∧
      l.pull.item = some (.error (.lengthTooSmall "AB" 4 6)) ∧
      ∃ start payload, l.Next start Definition.defining.typeId longer payload ∧
        Definition.Faulty payload := by
  intro longer short bytes l
  have hd : l.table.get? Definition.defining.typeId = some longer := by decide +kernel
  have hitem : l.pull.item = some (.error (.lengthTooSmall "AB" 4 6)) :=
    Feed.eq_error_of_errors (by decide +kernel)
  obtain ⟨herror, -, -⟩ := pull_error_iff_faulty bytes [.pull]
  exact ⟨hd, hitem, (herror longer hd rfl rfl).1.mp ⟨_, hitem⟩⟩

end BinaryLog

end DataFlash
