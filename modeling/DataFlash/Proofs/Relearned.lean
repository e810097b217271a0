import DataFlash.Proofs.Governed

namespace DataFlash

namespace Definition

/-- Columns as they are found in a list of them, one for each of the known characters, and a length
with room for all fields. -/
structure Normal (d : Definition) : Prop where
  column : ∀ column ∈ d.columns,
    column ≠ "" ∧ ',' ∉ column.toList ∧ Text.trim column.toList = column.toList
  count : d.columns.length = d.format.toList.length
  known : ∀ c ∈ d.format.toList, (FieldType.ofChar? c).isSome
  room : headerSize + d.payloadSize ≤ d.length

theorem column_of_mem {list column : String} (h : column ∈ columnsOf list) :
    column ≠ "" ∧ ',' ∉ column.toList ∧ Text.trim column.toList = column.toList := by
  rw [columnsOf_eq] at h
  obtain ⟨part, hpart, rfl⟩ := List.mem_map.mp h
  obtain ⟨hmem, hne⟩ := List.mem_filter.mp hpart
  rw [String.toList_ofList]
  refine ⟨fun hempty => ?_, Text.part_of_mem hmem⟩
  have hnil : part = [] := by simpa using congrArg String.toList hempty
  simp [hnil] at hne

theorem normal_of_ofRecord {r : Record} {d : Definition} (h : ofRecord r = .ok d) : d.Normal := by
  obtain ⟨list, hparts, room, -⟩ := ofRecord_eq_ok h
  obtain ⟨known, count, hd⟩ := ofParts_eq_ok.mp hparts
  have hcolumns : d.columns = columnsOf list := congrArg columns hd
  refine { column := fun column hc => ?_, count := hcolumns ▸ count, known, room }
  exact column_of_mem (hcolumns ▸ hc)

/-- Whatever the fields of a record are, a definition that is learned from it is in normal form, and
the record that spells it out defines it again. -/
theorem ofRecord_normal {r : Record} {d : Definition} (h : ofRecord r = .ok d) :
    d.Normal ∧ ∀ message time, ofRecord {
      name := message
      fields := [
        ("Type", .uint (UInt64.ofNat d.typeId.toNat)), ("Length", .uint (UInt64.ofNat d.length)),
        ("Name", .text d.name), ("Format", .text d.format),
        ("Columns", .text (",".intercalate d.columns))]
      timestamp := time } = .ok d := by
  have hnormal := normal_of_ofRecord h
  exact ⟨hnormal, (sound_of_ofRecord h).ofRecord_spelled (columnsOf_joined hnormal.column)⟩

/-- A type with a fraction, an array for a name, and a column that is there twice. -/
theorem ofRecord_normal_fraction :
    let r : Record := {
      name := "R"
      fields := [
        ("Type", .float 5.75), ("Length", .int 6), ("Name", .array [1, -2]), ("Format", .text "BH"),
        ("Columns", .text ",A, ,B "), ("Type", .text "none"), ("Mark", .uint 1)] }
    let d : Definition :=
      { typeId := 5, length := 6, name := "[1, -2]", format := "BH", columns := ["A", "B"] }
    ofRecord r = .ok d ∧ d.Normal ∧ ofRecord {
      name := "FMT"
      fields := [
        ("Type", .uint 5), ("Length", .uint 6), ("Name", .text "[1, -2]"), ("Format", .text "BH"),
        ("Columns", .text "A,B")] } = .ok d := by
  intro r d
  have h : ofRecord r = .ok d := by decide +kernel
  obtain ⟨hnormal, hagain⟩ := ofRecord_normal h
  exact ⟨h, hnormal, hagain "FMT" none⟩

end Definition

namespace TextLog

variable {table : Table String} {line : Nat} {text : List Char} {d : Definition} {r : Record}

theorem ofRecord_of_readDefinition {spelled : List String}
    (h : readDefinition line spelled = .ok (d, r)) :
    (∃ n, r.get? "Length" = some (.uint n) ∧ d.length = n.toNat) ∧ Definition.ofRecord r =
      if 2 ^ 63 ≤ d.length then .error .negativeLength
      else if d.length < d.needed then .error (.lengthTooSmall d.name d.length d.needed)
      else .ok d := by
  obtain ⟨t, n, name, format, columns, ht, hparts, rfl⟩ := readDefinition_eq_ok h
  obtain ⟨-, -, hd⟩ := Definition.ofParts_eq_ok.mp hparts
  have hlength : d.length = n.toNat := congrArg Definition.length hd
  refine ⟨⟨n, rfl, hlength⟩, ?_⟩
  rw [Definition.ofRecord_values _ _ ht, hparts, ← hlength]
  rfl

theorem name_of_readData {name : String} {raws : List String}
    (h : given (readData d line name raws) = some (.ok r)) : r.name = name := by
  unfold readData at h
  split at h
  · cases h
  · split at h
    · cases h
      rfl
    · cases h

/-- A record under the name of definitions is that of a line that defines a message. -/
theorem exists_readDefinition (h : given (readLine table line text) = some (.ok r))
    (hname : r.name = "FMT") : ∃ spelled d, readDefinition line spelled = .ok (d, r) ∧
      readLine table line text = .defines d r := by
  obtain ⟨name, raws, hvalues⟩ := exists_values text
  have hread : readLine table line text = _ := readLine_eq hvalues (trim_ne_nil_of_given h)
  rw [hread] at h ⊢
  split at h
  · next heq =>
    rw [if_pos heq]
    split at h
    · next d' r' hd =>
      cases h
      exact ⟨raws, d', hd, rfl⟩
    · cases h
  · next hne =>
    split at h
    · cases h
    · exact absurd ((name_of_readData h).symm.trans hname) hne

/-- A line that defines a message and the record that it gives teach the same, but for the length.
One that wraps is invalid in the record, one without room for all fields is malformed there, and
with any other length the record defines what the line does. -/
theorem line_and_record_agree {lines : List (List Char)} {calls : List Cursor.Call}
    (hitem : (calls.foldl perform (ofLines lines)).pull.item = some (.ok r))
    (hname : r.name = "FMT") :
    let l := calls.foldl perform (ofLines lines)
    ∃ i text d, lines[i]? = some text ∧ Defines text d ∧ l.pull.next.line = i + 1 ∧
      l.pull.next.table = l.table.insert d.name d ∧
      (∃ n, r.get? "Length" = some (.uint n) ∧ d.length = n.toNat) ∧
      (2 ^ 63 ≤ d.length → ∃ e, Definition.ofRecord r = .error e ∧ e.kind = .invalid) ∧
      (d.length < 2 ^ 63 → d.length < headerSize + d.payloadSize →
        ∃ e, Definition.ofRecord r = .error e ∧ e.kind = .malformed) ∧
      (d.length < 2 ^ 63 → headerSize + d.payloadSize ≤ d.length →
        Definition.ofRecord r = .ok d) := by
  intro l
  have h : Stands lines l := stands_foldl lines calls
  have hnext : Stands lines l.pull.next := (h.advance []).1
  obtain ⟨i, -, houtcome, hline, htable⟩ := h.exists_line hitem
  obtain ⟨text, htext, hgiven⟩ := Option.bind_eq_some_iff.mp houtcome
  obtain ⟨spelled, d, hread, hdefines⟩ := exists_readDefinition hgiven hname
  have hdefined : Defines text d := (defines_iff _ _).mpr ⟨r, hdefines⟩
  have hlearned : l.pull.next.table = l.table.insert d.name d := by
    rw [hnext.table, hline, tableAfter_of_teaches ⟨text, htext, hdefined⟩, htable]
  obtain ⟨hlength, hrecord⟩ := ofRecord_of_readDefinition hread
  refine ⟨i, text, d, htext, hdefined, hline, hlearned, hlength, fun hlarge => ?_,
    fun hsmall hshort => ?_, fun hsmall hroom => ?_⟩
  · rw [if_pos hlarge] at hrecord
    exact ⟨_, hrecord, rfl⟩
  · have hneeded : d.length < d.needed := hshort
    rw [if_neg (Nat.not_le.mpr hsmall), if_pos hneeded] at hrecord
    exact ⟨_, hrecord, rfl⟩
  · have hneeded : ¬ d.length < d.needed := Nat.not_lt.mpr hroom
    rw [if_neg (Nat.not_le.mpr hsmall), if_neg hneeded] at hrecord
    exact hrecord

/-- A message is defined three times: with a length that wraps, with one that leaves no room for its
field and with one that does. -/
theorem line_and_record_agree_lengths :
    let lines := ["FMT, 1, 9223372036854775808, A, B, x", "FMT, 1, 3, A, B, x",
      "FMT, 1, 4, A, B, x"].map String.toList
    let record (length : UInt64) : Record := {
      name := "FMT"
      fields := [("Type", .uint 1), ("Length", .uint length), ("Name", .text "A"),
        ("Format", .text "B"), ("Columns", .text "x")] }
    let d : Definition := { typeId := 1, length := 4, name := "A", format := "B", columns := ["x"] }
    let l (n : Nat) := (List.replicate n Cursor.Call.pull).foldl perform (ofLines lines)
    ((l 0).pull.item = some (.ok (record 9223372036854775808)) ∧
      ∃ e, Definition.ofRecord (record 9223372036854775808) = .error e ∧ e.kind = .invalid) ∧
    ((l 1).pull.item = some (.ok (record 3)) ∧
      ∃ e, Definition.ofRecord (record 3) = .error e ∧ e.kind = .malformed) ∧
    (l 2).pull.item = some (.ok (record 4)) ∧ (l 2).pull.next.table = (l 2).table.insert "A" d ∧
      Definition.ofRecord (record 4) = .ok d := by
  intro lines record d l
  have hfirst : (l 0).pull.item = some (.ok (record 9223372036854775808)) := by
    with_unfolding_all rfl
  have hsecond : (l 1).pull.item = some (.ok (record 3)) := by
    with_unfolding_all rfl
  have hthird : (l 2).pull.item = some (.ok (record 4)) := by
    with_unfolding_all rfl
  obtain ⟨-, -, d₁, -, -, -, -, ⟨n, hn, hlength⟩, hwraps, -, -⟩ := line_and_record_agree hfirst rfl
  obtain ⟨-, -, d₂, -, -, -, htable₂, -, -, hshort, -⟩ := line_and_record_agree hsecond rfl
  obtain ⟨-, -, d₃, -, -, -, htable₃, -, -, -, hsame⟩ := line_and_record_agree hthird rfl
  -- What was learned stands first in the table.
  have hd₂ : d₂ = { d with length := 3 } := by
    have hhead : (l 1).pull.next.table.entries.head? = some ("A", { d with length := 3 }) := by
      decide +kernel
    rw [htable₂] at hhead
    exact congrArg Prod.snd (Option.some.inj hhead)
  have hd₃ : d₃ = d := by
    have hhead : (l 2).pull.next.table.entries.head? = some ("A", d) := by decide +kernel
    rw [htable₃] at hhead
    exact congrArg Prod.snd (Option.some.inj hhead)
  subst hd₂ hd₃
  refine ⟨⟨hfirst, hwraps ?_⟩, ⟨hsecond, hshort (by decide) (by decide)⟩, hthird, htable₃,
    hsame (by decide) (by decide)⟩
  rw [hlength]
  cases hn
  decide

end TextLog

end DataFlash
