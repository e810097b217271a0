import DataFlash.Proofs.Places
import Mathlib.Order.Lattice.Nat

namespace DataFlash

/-- The positions that cannot be decoded: the character stands for no type, or its field ends past
the payload. -/
def faults (characters : List Char) (payload : List UInt8) : Set Nat :=
  { i | ∃ c, characters[i]? = some c ∧
    (fieldSize? c = none ∨ payload.length < fieldsSize (characters.take (i + 1))) }

/-- The error of a character whose field cannot be decoded. What has no type is refused even where
no bytes are left. -/
def fieldError (c : Char) : LogError :=
  match fieldSize? c with
  | none => .undecodable c
  | some _ => .io .endOfData

theorem fieldError_of_none {c : Char} (h : fieldSize? c = none) :
    fieldError c = .undecodable c := by
  rw [fieldError, h]

theorem fieldError_of_isSome {c : Char} (h : (fieldSize? c).isSome) :
    fieldError c = .io .endOfData := by
  obtain ⟨size, hsize⟩ := Option.isSome_iff_exists.mp h
  rw [fieldError, hsize]

section Faults

variable {c : Char} {characters : List Char} {payload : List UInt8} {i size : Nat}

/-- At the front a field has all of the payload. -/
theorem zero_mem_faults : 0 ∈ faults (c :: characters) payload ↔
    ∀ size, fieldSize? c = some size → payload.length < size := by
  cases hc : fieldSize? c <;> simp [faults, fieldsSize, hc]

/-- Behind a field that is decoded the positions count from its end. -/
theorem succ_mem_faults (hc : fieldSize? c = some size) (room : size ≤ payload.length) :
    i + 1 ∈ faults (c :: characters) payload ↔ i ∈ faults characters (payload.drop size) := by
  have hend : fieldsSize ((c :: characters).take (i + 1 + 1)) =
      size + fieldsSize (characters.take (i + 1)) := by
    simp [fieldsSize, hc]
  have hlen : (payload.drop size).length = payload.length - size := List.length_drop
  simp only [faults, Set.mem_ofPred_eq, List.getElem?_cons_succ, hend, hlen]
  refine exists_congr fun c' => and_congr_right fun _ => or_congr_right ?_
  omega

theorem isLeast_faults_zero (h : 0 ∈ faults (c :: characters) payload) :
    IsLeast (faults (c :: characters) payload) i ↔ i = 0 := by
  have hzero : IsLeast (faults (c :: characters) payload) 0 := ⟨h, fun j _ => Nat.zero_le j⟩
  exact ⟨fun hi => hi.unique hzero, fun hi => hi ▸ hzero⟩

theorem isLeast_faults_succ (hc : fieldSize? c = some size) (room : size ≤ payload.length) :
    IsLeast (faults (c :: characters) payload) i ↔
      ∃ j, i = j + 1 ∧ IsLeast (faults characters (payload.drop size)) j := by
  have hzero : 0 ∉ faults (c :: characters) payload := fun h =>
    absurd (zero_mem_faults.mp h size hc) (Nat.not_lt.mpr room)
  constructor
  · rintro ⟨hmem, hleast⟩
    cases i with
    | zero => exact absurd hmem hzero
    | succ j =>
      refine ⟨j, rfl, (succ_mem_faults hc room).mp hmem, fun k hk => ?_⟩
      exact Nat.le_of_succ_le_succ (hleast ((succ_mem_faults hc room).mpr hk))
  · rintro ⟨j, rfl, hmem, hleast⟩
    refine ⟨(succ_mem_faults hc room).mpr hmem, fun k hk => ?_⟩
    cases k with
    | zero => exact absurd hk hzero
    | succ k => exact Nat.succ_le_succ (hleast ((succ_mem_faults hc room).mp hk))

theorem fieldsSize_take_le (characters : List Char) (n : Nat) :
    fieldsSize (characters.take n) ≤ fieldsSize characters := by
  have hsplit := fieldsSize_append (characters.take n) (characters.drop n)
  rw [List.take_append_drop] at hsplit
  omega

theorem faults_eq_empty : faults characters payload = ∅ ↔
    (∀ c ∈ characters, (fieldSize? c).isSome) ∧ fieldsSize characters ≤ payload.length := by
  constructor
  · intro h
    have hnone (i : Nat) (c : Char) (hc : characters[i]? = some c) :
        (fieldSize? c).isSome ∧ fieldsSize (characters.take (i + 1)) ≤ payload.length := by
      have hi : i ∉ faults characters payload := h ▸ Set.notMem_empty i
      refine ⟨?_, ?_⟩
      · exact Option.isSome_iff_ne_none.mpr fun hunknown => hi ⟨c, hc, .inl hunknown⟩
      · exact Nat.le_of_not_lt fun hshort => hi ⟨c, hc, .inr hshort⟩
    refine ⟨fun c hc => ?_, ?_⟩
    · obtain ⟨i, hi⟩ := List.mem_iff_getElem?.mp hc
      exact (hnone i c hi).1
    · -- The last field ends where all of them end.
      cases hlast : characters.getLast? with
      | none =>
        rw [List.getLast?_eq_none_iff.mp hlast]
        exact Nat.zero_le _
      | some c =>
        rw [List.getLast?_eq_getElem?] at hlast
        have hroom := (hnone _ c hlast).2
        rwa [List.take_of_length_le (by omega)] at hroom
  · rintro ⟨known, room⟩
    refine Set.eq_empty_of_forall_notMem fun i ⟨c, hc, hfault⟩ => ?_
    rcases hfault with hunknown | hshort
    · have hknown := known c (List.mem_of_getElem? hc)
      rw [hunknown] at hknown
      cases hknown
    · exact absurd (fieldsSize_take_le characters (i + 1)) (by omega)

end Faults

namespace Definition

variable {c : Char} {characters : List Char} {columns : List String} {payload : List UInt8}

theorem decodeField_error (h : ∀ size, fieldSize? c = some size → payload.length < size) :
    decodeField c payload = .error (fieldError c) := by
  unfold decodeField fieldError
  cases htype : FieldType.ofChar? c with
  | none => simp [fieldSize?, htype]
  | some type =>
    have hshort : ¬ type.size ≤ payload.length :=
      Nat.not_le.mpr (h type.size (fieldSize?_eq_some htype))
    simp [fieldSize?, htype, Bytes.split?_eq, hshort]

theorem decodeField_room {size : Nat} (hc : fieldSize? c = some size)
    (room : size ≤ payload.length) :
    ∃ value, decodeField c payload = .ok (value, payload.drop size) := by
  have hknown : (FieldType.ofChar? c).isSome := by
    rw [← Option.isSome_map (f := FieldType.size)]
    exact Option.isSome_of_eq_some hc
  have hsize : (fieldSize? c).getD 0 = size := by rw [hc, Option.getD_some]
  rw [← hsize] at room ⊢
  exact decodeField_ok hknown room

/-- Decoding fails with the error of the first position that cannot be decoded. -/
theorem decodeFields_eq_error_iff (hcolumns : columns.length = characters.length) {e : LogError} :
    decodeFields (characters.zip columns) payload = .error e ↔
      ∃ i c, IsLeast (faults characters payload) i ∧ characters[i]? = some c ∧
        e = fieldError c := by
  -- Along the characters: the front one fails, or the positions behind it count from its end.
  induction characters generalizing columns payload with
  | nil => simp [decodeFields]
  | cons c characters ih =>
    obtain ⟨column, columns, rfl⟩ := List.exists_cons_of_length_eq_add_one hcolumns
    by_cases hfault : 0 ∈ faults (c :: characters) payload
    · have herror := decodeField_error (zero_mem_faults.mp hfault)
      simp only [List.zip_cons_cons, decodeFields, herror, isLeast_faults_zero hfault]
      simp [bind, Except.bind, eq_comm]
    · obtain ⟨size, hc, room⟩ : ∃ size, fieldSize? c = some size ∧ size ≤ payload.length := by
        simpa [zero_mem_faults] using hfault
      obtain ⟨value, hvalue⟩ := decodeField_room hc room
      have hmore : decodeFields ((c :: characters).zip (column :: columns)) payload = .error e ↔
          decodeFields (characters.zip columns) (payload.drop size) = .error e := by
        simp only [List.zip_cons_cons, decodeFields, hvalue, bind, Except.bind]
        cases decodeFields (characters.zip columns) (payload.drop size) <;>
          simp [pure, Except.pure]
      rw [hmore, ih (Nat.succ.inj hcolumns)]
      simp only [isLeast_faults_succ hc room]
      constructor
      · rintro ⟨j, c', hleast, hc', he⟩
        exact ⟨j + 1, c', ⟨j, rfl, hleast⟩, hc', he⟩
      · rintro ⟨_, c', ⟨j, rfl, hleast⟩, hc', he⟩
        exact ⟨j, c', hleast, hc', he⟩

/-- How many fields are decoded: one for each character that has a column. -/
def fieldCount (d : Definition) : Nat := min d.format.toList.length d.columns.length

def decoded (d : Definition) : List Char := d.format.toList.take d.fieldCount

theorem decode_eq (d : Definition) (payload : List UInt8) :
    d.decode payload = decodeFields (d.decoded.zip (d.columns.take d.fieldCount)) payload := by
  rw [decode, List.zip_eq_zip_take_min]
  rfl

theorem decode_eq_error_iff {d : Definition} {e : LogError} :
    d.decode payload = .error e ↔ ∃ i c, IsLeast (faults d.decoded payload) i ∧
      d.decoded[i]? = some c ∧ e = fieldError c := by
  rw [decode_eq]
  exact decodeFields_eq_error_iff (by simp [decoded, fieldCount])

theorem decode_ok_iff {d : Definition} :
    (∃ fields, d.decode payload = .ok fields) ↔ faults d.decoded payload = ∅ := by
  constructor
  · rintro ⟨fields, hok⟩
    by_contra hne
    have hleast := isLeast_csInf (Set.nonempty_iff_ne_empty.mpr hne)
    obtain ⟨c, hc, -⟩ := hleast.1
    have herror := decode_eq_error_iff.mpr ⟨_, c, hleast, hc, rfl⟩
    rw [hok] at herror
    cases herror
  · intro hempty
    cases hd : d.decode payload with
    | ok fields => exact ⟨fields, rfl⟩
    | error e =>
      obtain ⟨i, -, hleast, -⟩ := decode_eq_error_iff.mp hd
      exact absurd hleast.1 (hempty ▸ Set.notMem_empty i)

/-- A payload is decoded if the characters that have columns are known and it has room for their
fields. Otherwise decoding fails at the first position whose character is unknown or whose field
ends past the payload, and the character tells which of the two is the error. Further characters or
columns have no part in this. -/
theorem decode_fails_first (d : Definition) (payload : List UInt8) :
    ((∃ fields, d.decode payload = .ok fields) ↔
      (∀ c ∈ d.decoded, (fieldSize? c).isSome) ∧ fieldsSize d.decoded ≤ payload.length) ∧
    (∀ e, d.decode payload = .error e ↔ ∃ i c, IsLeast (faults d.decoded payload) i ∧
      d.decoded[i]? = some c ∧ e = fieldError c) ∧
    (∀ c, (fieldSize? c = none → (fieldError c).kind = .malformed) ∧
      ((fieldSize? c).isSome → (fieldError c).kind = .io ∧
        (fieldError c).detail = "failed to fill whole buffer")) ∧
    ∀ d' : Definition, d'.decoded = d.decoded →
      d'.columns.take d'.fieldCount = d.columns.take d.fieldCount →
        d'.decode payload = d.decode payload := by
  refine ⟨?_, fun e => decode_eq_error_iff, fun c => ⟨fun hc => ?_, fun hc => ?_⟩,
    fun d' hdecoded hnames => ?_⟩
  · rw [decode_ok_iff, faults_eq_empty]
  · rw [fieldError_of_none hc]
    rfl
  · rw [fieldError_of_isSome hc]
    exact ⟨rfl, rfl⟩
  · rw [decode_eq, decode_eq, hdecoded, hnames]

/-- The payload ends inside an array, so the unknown character behind it is not reached, and one
more character changes nothing. Where all bytes are used up a character can still be unknown. -/
theorem decode_fails_first_inArray :
    let d : Definition := {
      typeId := 1, length := 0, name := "", format := "ha?", columns := ["A", "B", "C"] }
    let longer : Definition := { d with format := "ha?x" }
    let unknown : Definition := { d with format := "h?", columns := ["A", "B", "C"] }
    (longer.decoded = d.decoded ∧ IsLeast (faults d.decoded [1, 2, 3]) 1 ∧
      d.decode [1, 2, 3] = .error (.io .endOfData) ∧
      longer.decode [1, 2, 3] = .error (.io .endOfData)) ∧
    IsLeast (faults unknown.decoded [1, 2]) 1 ∧
      unknown.decode [1, 2] = .error (.undecodable '?') := by
  intro d longer unknown
  obtain ⟨-, herror, -, hfurther⟩ := decode_fails_first d [1, 2, 3]
  obtain ⟨-, herror', -, -⟩ := decode_fails_first unknown [1, 2]
  have hsame : longer.decoded = d.decoded := by decide
  have hsecond (c : Char) (more : List Char) {payload : List UInt8} (room : 2 ≤ payload.length)
      (hc : ∀ size, fieldSize? c = some size → (payload.drop 2).length < size) :
      IsLeast (faults ('h' :: c :: more) payload) 1 :=
    (isLeast_faults_succ rfl room).mpr
      ⟨0, rfl, (isLeast_faults_zero (zero_mem_faults.mpr hc)).mpr rfl⟩
  have hshort : IsLeast (faults d.decoded [1, 2, 3]) 1 := by
    have hdecoded : d.decoded = ['h', 'a', '?'] := by decide
    exact hdecoded ▸ hsecond 'a' ['?'] (by decide) fun size hsize => by cases hsize; decide
  have hunknown : IsLeast (faults unknown.decoded [1, 2]) 1 := by
    have hdecoded : unknown.decoded = ['h', '?'] := by decide
    exact hdecoded ▸ hsecond '?' [] (by decide) fun size hsize => by cases hsize
  have hd : d.decode [1, 2, 3] = .error (.io .endOfData) :=
    (herror _).mpr ⟨1, 'a', hshort, by decide, by decide⟩
  refine ⟨⟨hsame, hshort, hd, ?_⟩, hunknown, ?_⟩
  · rw [hfurther longer hsame (by decide), hd]
  · exact (herror' _).mpr ⟨1, '?', hunknown, by decide, by decide⟩

end Definition

end DataFlash
