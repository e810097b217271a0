import DataFlash.Log.Kind
import DataFlash.Proofs.Definition
import DataFlash.Proofs.Fields
import Mathlib.Algebra.Ring.Nat
import Mathlib.Data.List.Forall2

namespace DataFlash

/-- The types of the characters whose fields hold integers and texts. -/
def plainType? : Char → Option FieldType
  | 'b' => some (.signed 1)
  | 'B' | 'M' => some (.unsigned 1)
  | 'h' => some (.signed 2)
  | 'H' => some (.unsigned 2)
  | 'i' => some (.signed 4)
  | 'I' => some (.unsigned 4)
  | 'q' => some (.signed 8)
  | 'Q' => some (.unsigned 8)
  | 'n' => some (.text 4)
  | 'N' => some (.text 16)
  | 'Z' => some (.text 64)
  | _ => none

theorem ofChar?_of_plainType? {c : Char} {type : FieldType} (h : plainType? c = some type) :
    FieldType.ofChar? c = some type := by
  unfold plainType? at h
  split at h <;> first | exact h | cases h

def Fits (c : Char) (v : Value) : Prop := ∃ type ∈ plainType? c, type.Holds v

instance (c : Char) (v : Value) : Decidable (Fits c v) :=
  inferInstanceAs (Decidable (∃ type ∈ plainType? c, type.Holds v))

namespace Definition

def encodeFields : List Char → List Value → List UInt8
  | c :: characters, v :: values =>
    ((plainType? c).map (·.encode v)).getD [] ++ encodeFields characters values
  | _, _ => []

variable {characters : List Char} {values : List Value}

theorem length_encodeFields (fits : List.Forall₂ Fits characters values) :
    (encodeFields characters values).length =
      characters.foldr (fun c size => (fieldSize? c).getD 0 + size) 0 := by
  induction fits with
  | nil => rfl
  | cons hfit _ ih =>
    obtain ⟨type, ht, hv⟩ := hfit
    have hc := ofChar?_of_plainType? ht
    have ht' : plainType? _ = some type := ht
    simp [encodeFields, ht', FieldType.length_encode hv, fieldSize?, hc, ih]

/-- The fields are read back from their bytes, whatever pads them. -/
theorem decodeFields_encodeFields (fits : List.Forall₂ Fits characters values)
    (columns : List String) (padding : List UInt8) :
    decodeFields (characters.zip columns) (encodeFields characters values ++ padding) =
      .ok (columns.zip values) := by
  induction fits generalizing columns with
  | nil => cases columns <;> rfl
  | @cons c v characters values hfit _ ih =>
    cases columns with
    | nil => rfl
    | cons column columns =>
      obtain ⟨type, ht, hv⟩ := hfit
      have ht' : plainType? c = some type := ht
      have hd := decodeField_append (ofChar?_of_plainType? ht) (FieldType.length_encode hv)
        (encodeFields characters values ++ padding)
      rw [FieldType.decode_encode hv] at hd
      simp only [List.zip_cons_cons, decodeFields, encodeFields, ht', Option.map_some,
        Option.getD_some, List.append_assoc, hd, ih, bind, Except.bind, pure, Except.pure]

/-- The fields are read back from the parts of a line. -/
theorem parseFields_display (fits : List.Forall₂ Fits characters values) (columns : List String) :
    parseFields ((characters.zip columns).zip (values.map Value.display)) =
      .ok (columns.zip values) := by
  induction fits generalizing columns with
  | nil => cases columns <;> rfl
  | @cons c v characters values hfit _ ih =>
    cases columns with
    | nil => rfl
    | cons column columns =>
      obtain ⟨type, ht, hv⟩ := hfit
      have hp : parseField c v.display = .ok v := by
        simp [parseField, ofChar?_of_plainType? ht, FieldType.parse?_display hv]
      simp only [List.zip_cons_cons, List.map_cons, parseFields, hp, ih, bind, Except.bind, pure,
        Except.pure]

theorem clean_display_of_fits (fits : List.Forall₂ Fits characters values)
    (hclean : ∀ v ∈ values, v.Clean) : ∀ v ∈ values, Text.Clean v.display.toList := by
  induction fits with
  | nil => simp
  | cons hfit _ ih =>
    obtain ⟨type, -, hv⟩ := hfit
    rw [List.forall_mem_cons] at hclean ⊢
    exact ⟨hv.clean_display hclean.1, ih hclean.2⟩

def joined (d : Definition) : String := ",".intercalate d.columns

def spelled (d : Definition) : List Value :=
  [.uint (UInt64.ofNat d.typeId.toNat), .uint (UInt64.ofNat d.length), .text d.name, .text d.format,
    .text d.joined]

def message (d : Definition) : List UInt8 :=
  LogKind.sync ++ defining.typeId :: encodeFields defining.format.toList d.spelled

/-- A definition that a message can spell out, of integer and text fields, in a byte for its type,
a byte for its length, and texts that fit their fields. -/
structure Plain (d : Definition) : Prop where
  typeId : d.typeId ≠ defining.typeId
  name_ne : d.name ≠ defining.name
  name_ne_nil : d.name ≠ ""
  name : '\x00' ∉ d.name.toList ∧ (Utf8.encode d.name).length ≤ 4 ∧ Text.Clean d.name.toList
  format : (Utf8.encode d.format).length ≤ 16
  known : ∀ c ∈ d.format.toList, (plainType? c).isSome
  columns : d.columns.length = d.format.toList.length
  column : ∀ c ∈ d.columns, c ≠ "" ∧ '\x00' ∉ c.toList ∧ Text.Clean c.toList
  joined : (Utf8.encode d.joined).length ≤ 64
  room : d.needed ≤ d.length
  byte : d.length ≤ 255

instance (d : Definition) : Decidable d.Plain :=
  decidable_of_iff
    (d.typeId ≠ defining.typeId ∧ d.name ≠ defining.name ∧ d.name ≠ "" ∧
      ('\x00' ∉ d.name.toList ∧ (Utf8.encode d.name).length ≤ 4 ∧ Text.Clean d.name.toList) ∧
      (Utf8.encode d.format).length ≤ 16 ∧ (d.format.toList.all fun c => (plainType? c).isSome) ∧
      d.columns.length = d.format.toList.length ∧
      (∀ c ∈ d.columns, c ≠ "" ∧ '\x00' ∉ c.toList ∧ Text.Clean c.toList) ∧
      (Utf8.encode d.joined).length ≤ 64 ∧ d.needed ≤ d.length ∧ d.length ≤ 255) <| by
      rw [List.all_eq_true]
      constructor
      · rintro ⟨typeId, name_ne, name_ne_nil, name, format, known, columns, column, joined, room,
          byte⟩
        exact {
          typeId, name_ne, name_ne_nil, name, format, known, columns, column, joined, room, byte }
      · intro h
        exact ⟨h.typeId, h.name_ne, h.name_ne_nil, h.name, h.format, h.known, h.columns, h.column,
          h.joined, h.room, h.byte⟩

variable {d : Definition}

theorem Plain.exists_type (h : d.Plain) {c : Char} (hc : c ∈ d.format.toList) :
    ∃ type, plainType? c = some type :=
  Option.isSome_iff_exists.mp (h.known c hc)

theorem Plain.sound (h : d.Plain) : d.Sound where
  known c hc := by
    obtain ⟨type, ht⟩ := h.exists_type hc
    simp [ofChar?_of_plainType? ht]
  columns := h.columns
  room := h.room
  word := by
    have := h.byte
    omega

theorem columnsOf_intercalate {names : List String} (hne : names ≠ [])
    (h : ∀ name ∈ names, ',' ∉ name.toList ∧ Text.trim name.toList = name.toList) :
    columnsOf (",".intercalate names) = names.filter (· ≠ "") := by
  have hparts : Text.parts (",".intercalate names).toList = names.map String.toList := by
    rw [String.toList_intercalate]
    refine Text.parts_join (by simpa using hne) fun t ht => ?_
    obtain ⟨name, hname, rfl⟩ := List.mem_map.mp ht
    exact h name hname
  rw [columnsOf_eq, columnParts, hparts, List.filter_map, List.map_map]
  simp [Function.comp_def]

theorem columnsOf_joined (h : ∀ column ∈ d.columns,
    column ≠ "" ∧ ',' ∉ column.toList ∧ Text.trim column.toList = column.toList) :
    columnsOf d.joined = d.columns := by
  by_cases hne : d.columns = []
  · -- Without columns the text is empty, and its one part is empty and no name.
    rw [Definition.joined, hne]
    rfl
  · rw [Definition.joined, columnsOf_intercalate hne fun column hc => (h column hc).2]
    exact List.filter_eq_self.mpr fun column hc => decide_eq_true (h column hc).1

theorem Plain.columnsOf_joined (h : d.Plain) : columnsOf d.joined = d.columns :=
  Definition.columnsOf_joined fun c hc =>
    have hclean := (h.column c hc).2.2
    ⟨(h.column c hc).1, hclean.comma, hclean.trim⟩

theorem not_isBlank_of_plainType? {c : Char} {type : FieldType} (h : plainType? c = some type) :
    Text.isBlank c = false ∧ c ≠ ',' := by
  unfold plainType? at h
  split at h <;> first | decide | cases h

theorem Plain.clean_format (h : d.Plain) : Text.Clean d.format.toList := by
  apply Text.clean_of_forall
  intro c hc
  obtain ⟨type, ht⟩ := h.exists_type hc
  exact not_isBlank_of_plainType? ht

theorem Plain.nul_notMem_format (h : d.Plain) : '\x00' ∉ d.format.toList := by
  intro hmem
  obtain ⟨type, ht⟩ := h.exists_type hmem
  cases ht

theorem Plain.nul_notMem_joined (h : d.Plain) : '\x00' ∉ d.joined.toList := by
  rw [Definition.joined, String.toList_intercalate]
  apply Text.notMem_intercalate (by decide)
  simpa using fun c hc => (h.column c hc).2.1

theorem Plain.fits_spelled (h : d.Plain) : List.Forall₂ Fits defining.format.toList d.spelled := by
  have htypeId : d.typeId.toNat < 256 := d.typeId.toNat_lt
  have hbyte := h.byte
  have hfits : ∀ n, n ≤ 255 → Fits 'B' (.uint (UInt64.ofNat n)) := by
    intro n hn
    refine ⟨.unsigned 1, rfl, ?_⟩
    have hmod : (UInt64.ofNat n).toNat = n :=
      UInt64.toNat_ofNat_of_lt' (by unfold UInt64.size; omega)
    simp only [FieldType.Holds, Bytes.values, hmod]
    omega
  refine .cons (hfits _ (by omega)) (.cons (hfits _ hbyte) (.cons ?_ (.cons ?_ (.cons ?_ .nil))))
  · exact ⟨.text 4, rfl, h.name.1, h.name.2.1⟩
  · exact ⟨.text 16, rfl, h.nul_notMem_format, h.format⟩
  · exact ⟨.text 64, rfl, h.nul_notMem_joined, h.joined⟩

theorem Matched.ofParts_joined (h : d.Matched) (hcolumns : columnsOf d.joined = d.columns) :
    ofParts d.typeId d.length d.name d.format d.joined = .ok d := by
  refine ofParts_eq_ok.mpr ⟨h.known, ?_, ?_⟩
  · rw [hcolumns, h.columns]
  · rw [hcolumns]

theorem Plain.ofParts_joined (h : d.Plain) :
    ofParts d.typeId d.length d.name d.format d.joined = .ok d :=
  h.sound.matched.ofParts_joined h.columnsOf_joined

theorem toInt_toInt64 {n : UInt64} (h : n.toNat < 2 ^ 63) : n.toInt64.toInt = n.toNat := by
  refine BitVec.toInt_eq_toNat_of_lt ?_
  show 2 * n.toNat < 2 ^ 64
  omega

theorem toInt_toInt64_neg {n : UInt64} (h : 2 ^ 63 ≤ n.toNat) : n.toInt64.toInt < 0 := by
  have hlt : n.toNat < 2 ^ 64 := n.toNat_lt
  have hint : n.toInt64.toInt = (n.toNat : Int) - 2 ^ 64 := by
    refine (BitVec.toInt_eq_toNat_cond n.toBitVec).trans (if_neg ?_)
    show ¬ 2 * n.toNat < 2 ^ 64
    omega
  omega

theorem number_uint {r : Record} {column : String} {n : UInt64}
    (h : r.get? column = some (.uint n)) : number r column = .ok n.toInt64.toInt := by
  simp [number, Record.require, h, Value.toInt64?, bind, Except.bind]

theorem number_of_get? {r : Record} {column : String} {n : Nat}
    (h : r.get? column = some (.uint (UInt64.ofNat n))) (hn : n ≤ 255) :
    number r column = .ok (n : Int) := by
  have hnat : (UInt64.ofNat n).toNat = n :=
    UInt64.toNat_ofNat_of_lt' (by unfold UInt64.size; omega)
  rw [number_uint h, toInt_toInt64 (by omega), hnat]

theorem ofRecord_values (message : String) (time : Option Float) {t n : UInt64}
    (ht : t.toNat < 256) (name format columns : String) :
    ofRecord {
        name := message
        fields := defining.columns.zip
          [.uint t, .uint n, .text name, .text format, .text columns]
        timestamp := time } =
      if 2 ^ 63 ≤ n.toNat then .error .negativeLength
      else ofParts t.toUInt8 n.toNat name format columns >>= fun d =>
        if d.length < d.needed then .error (.lengthTooSmall d.name d.length d.needed)
        else .ok d := by
  set r : Record := {
    name := message
    fields := defining.columns.zip [.uint t, .uint n, .text name, .text format, .text columns]
    timestamp := time }
  have htype : number r "Type" = .ok (t.toNat : Int) :=
    (number_uint rfl).trans (congrArg _ (toInt_toInt64 (by omega)))
  have hlength : number r "Length" = .ok n.toInt64.toInt := number_uint rfl
  split
  · next hlarge =>
    have hneg := toInt_toInt64_neg hlarge
    rw [ofRecord_eq]
    simp only [htype, hlength, bind, Except.bind]
    rw [if_neg (by omega), if_pos hneg]
  · next hsmall =>
    have hname : text r "Name" = .ok name := rfl
    have hformat : text r "Format" = .ok format := rfl
    have hcolumns : text r "Columns" = .ok columns := rfl
    rw [toInt_toInt64 (by omega)] at hlength
    rw [ofRecord_of_fields htype ht hlength hname hformat hcolumns, UInt8.ofNat_uInt64ToNat]

theorem Sound.ofRecord_spelled (h : d.Sound) (hcolumns : columnsOf d.joined = d.columns)
    (message : String) (time : Option Float) :
    ofRecord { name := message, fields := defining.columns.zip d.spelled, timestamp := time } =
      .ok d := by
  have hword := h.word
  have hbyte : d.typeId.toNat < 256 := d.typeId.toNat_lt
  have htype : (UInt64.ofNat d.typeId.toNat).toNat = d.typeId.toNat :=
    UInt64.toNat_ofNat_of_lt' (by unfold UInt64.size; omega)
  have hlength : (UInt64.ofNat d.length).toNat = d.length :=
    UInt64.toNat_ofNat_of_lt' (by unfold UInt64.size; omega)
  have hparts := h.matched.ofParts_joined hcolumns
  rw [spelled, ofRecord_values message time (by omega), hlength, if_neg (by omega),
    ← UInt8.ofNat_uInt64ToNat, htype, UInt8.ofNat_toNat, hparts]
  exact if_neg (Nat.not_lt.mpr h.room)

theorem Plain.ofRecord_spelled (h : d.Plain) :
    ofRecord { name := defining.name, fields := defining.columns.zip d.spelled } = .ok d :=
  h.sound.ofRecord_spelled h.columnsOf_joined defining.name none

end Definition

end DataFlash
