import DataFlash.Proofs.Definition
import Mathlib.Data.List.TakeWhile
import Mathlib.Data.Nat.Digits.Defs

namespace DataFlash

namespace Bytes

def word (bytes : List UInt8) : BitVec (8 * bytes.length) :=
  BitVec.ofNat _ (Nat.ofDigits 256 (bytes.map UInt8.toNat))

theorem toNat_word (bytes : List UInt8) : (word bytes).toNat = toNat bytes := by
  have hdigits : toNat bytes = Nat.ofDigits 256 (bytes.map UInt8.toNat) := by
    induction bytes with
    | nil => rfl
    | cons b bytes ih =>
      rw [toNat, ih, List.map_cons, Nat.ofDigits_cons]
  have hlt : Nat.ofDigits 256 (bytes.map UInt8.toNat) < 256 ^ (bytes.map UInt8.toNat).length :=
    Nat.ofDigits_lt_base_pow_length (by decide) (by simpa using fun b _ => b.toNat_lt)
  rw [List.length_map] at hlt
  rw [word, BitVec.toNat_ofNat, Nat.pow_mul, Nat.mod_eq_of_lt hlt, hdigits]

theorem toNat_lt (bytes : List UInt8) : toNat bytes < 2 ^ (8 * bytes.length) :=
  toNat_word bytes ▸ (word bytes).isLt

theorem toInt_word (bytes : List UInt8) : (word bytes).toInt = toInt bytes := by
  have hsize : Nat.pow 256 bytes.length = 2 ^ (8 * bytes.length) :=
    (Nat.pow_mul 2 8 bytes.length).symm
  rw [BitVec.toInt_eq_toNat_bmod, toNat_word, toInt, hsize]

theorem takeWhile_nonzero (bytes : List UInt8) : ∃ front, front = bytes.takeWhile (· != 0) ∧
    0 ∉ front ∧ (bytes = front ∨ ∃ rest, bytes = front ++ 0 :: rest) := by
  refine ⟨_, rfl, fun hmem => ?_, ?_⟩
  · have hnonzero := List.mem_takeWhile_imp hmem
    simp at hnonzero
  · have hsplit := List.takeWhile_append_dropWhile (p := (· != 0)) (l := bytes)
    cases hrest : bytes.dropWhile (· != 0) with
    | nil =>
      rw [hrest, List.append_nil] at hsplit
      exact .inl hsplit.symm
    | cons b rest =>
      have hhead : (b != 0) = false := by
        have hnot := List.head_dropWhile_not (· != 0) (l := bytes) (by simp [hrest])
        simpa only [hrest, List.head_cons] using hnot
      obtain rfl : b = 0 := by simpa using hhead
      rw [hrest] at hsplit
      exact .inr ⟨rest, hsplit.symm⟩

theorem toInt16s_pairs {bytes : List UInt8} {n : Nat} (h : bytes.length = 2 * n) :
    (toInt16s bytes).length = n ∧ ∀ i m, (toInt16s bytes)[i]? = some m →
      ∃ low high, bytes[2 * i]? = some low ∧ bytes[2 * i + 1]? = some high ∧
        m.toInt = (word [low, high]).toInt := by
  induction n generalizing bytes with
  | zero =>
    obtain rfl := List.length_eq_zero_iff.mp h
    exact ⟨rfl, fun i m hm => by simp [toInt16s] at hm⟩
  | succ n ih =>
    match bytes, h with
    | low :: high :: rest, h =>
      have hrest : rest.length = 2 * n := by
        simp only [List.length_cons] at h
        omega
      obtain ⟨hlen, hpairs⟩ := ih hrest
      refine ⟨by rw [toInt16s, List.length_cons, hlen], fun i m hm => ?_⟩
      rw [toInt16s] at hm
      cases i with
      | zero =>
        have hword := toInt_word [low, high]
        have hlow := BitVec.le_toInt (word [low, high])
        have hhigh := BitVec.toInt_lt (x := word [low, high])
        obtain rfl : Int16.ofInt (toInt [low, high]) = m := by simpa using hm
        refine ⟨low, high, rfl, rfl, ?_⟩
        rw [← hword]
        exact Int16.toInt_ofInt_of_le hlow hhigh
      | succ i =>
        obtain ⟨low', high', hl, hh, hm'⟩ := hpairs i m (by simpa using hm)
        exact ⟨low', high', by simpa [Nat.mul_succ] using hl, by simpa [Nat.mul_succ] using hh, hm'⟩

end Bytes

namespace FieldType

def signedCharacters : List (Char × Nat) := [('b', 1), ('h', 2), ('i', 4), ('q', 8)]

def unsignedCharacters : List (Char × Nat) := [('B', 1), ('M', 1), ('H', 2), ('I', 4), ('Q', 8)]

def textCharacters : List (Char × Nat) := [('n', 4), ('N', 16), ('Z', 64)]

end FieldType

/-- What a value says of the bytes of its field, by the format character of an integer, a text or an
array. -/
structure ReadFrom (c : Char) (bytes : List UInt8) (v : Value) : Prop where
  signed : ∀ size, (c, size) ∈ FieldType.signedCharacters → bytes.length = size ∧
    ∃ n, v = .int n ∧ n.toInt = (Bytes.word bytes).toInt
  unsigned : ∀ size, (c, size) ∈ FieldType.unsignedCharacters → bytes.length = size ∧
    ∃ n, v = .uint n ∧ n.toNat = (Bytes.word bytes).toNat
  text : ∀ size, (c, size) ∈ FieldType.textCharacters → bytes.length = size ∧
    ∃ front, 0 ∉ front ∧ (bytes = front ∨ ∃ rest, bytes = front ++ 0 :: rest) ∧
      v = .text (String.ofList (Utf8.decode front))
  array : c = 'a' → bytes.length = 64 ∧ ∃ ns : List Int16, v = .array ns ∧ ns.length = 32 ∧
    ∀ i n, ns[i]? = some n → ∃ low high, bytes[2 * i]? = some low ∧
      bytes[2 * i + 1]? = some high ∧ n.toInt = (Bytes.word [low, high]).toInt

namespace FieldType

variable {bytes : List UInt8}

theorem decode_signed (h : bytes.length ≤ 8) (size : Nat) :
    ∃ n, (signed size).decode bytes = .int n ∧ n.toInt = (Bytes.word bytes).toInt := by
  have hlow := BitVec.le_toInt (Bytes.word bytes)
  have hhigh := BitVec.toInt_lt (x := Bytes.word bytes)
  have hpow : (2 : Int) ^ (8 * bytes.length - 1) ≤ 2 ^ 63 :=
    pow_le_pow_right₀ (by decide) (by omega)
  refine ⟨_, rfl, ?_⟩
  rw [← Bytes.toInt_word]
  exact Int64.toInt_ofInt_of_le (by omega) (by omega)

theorem decode_unsigned (h : bytes.length ≤ 8) (size : Nat) :
    ∃ n, (unsigned size).decode bytes = .uint n ∧ n.toNat = (Bytes.word bytes).toNat := by
  have hlt := Bytes.toNat_lt bytes
  have hpow : 2 ^ (8 * bytes.length) ≤ 2 ^ 64 := Nat.pow_le_pow_right (by decide) (by omega)
  refine ⟨_, rfl, ?_⟩
  rw [Bytes.toNat_word]
  exact UInt64.toNat_ofNat_of_lt' (Nat.lt_of_lt_of_le hlt hpow)

theorem decode_text (bytes : List UInt8) (size : Nat) : ∃ front, 0 ∉ front ∧
    (bytes = front ∨ ∃ rest, bytes = front ++ 0 :: rest) ∧
      (text size).decode bytes = .text (String.ofList (Utf8.decode front)) := by
  obtain ⟨front, rfl, hnul, hsplit⟩ := Bytes.takeWhile_nonzero bytes
  exact ⟨_, hnul, hsplit, rfl⟩

theorem ofChar?_signed : ∀ entry ∈ signedCharacters,
    ofChar? entry.1 = some (.signed entry.2) ∧ entry.2 ≤ 8 := by decide

theorem ofChar?_unsigned : ∀ entry ∈ unsignedCharacters,
    ofChar? entry.1 = some (.unsigned entry.2) ∧ entry.2 ≤ 8 := by decide

theorem ofChar?_text : ∀ entry ∈ textCharacters, ofChar? entry.1 = some (.text entry.2) := by decide

end FieldType

theorem readFrom_decode {c : Char} {type : FieldType} (h : FieldType.ofChar? c = some type)
    {bytes : List UInt8} (hlen : bytes.length = type.size) :
    ReadFrom c bytes (type.decode bytes) where
  signed size hmem := by
    obtain ⟨htype, hsize⟩ := FieldType.ofChar?_signed _ hmem
    obtain rfl := Option.some.inj (h.symm.trans htype)
    exact ⟨hlen, FieldType.decode_signed (hlen.trans_le hsize) size⟩
  unsigned size hmem := by
    obtain ⟨htype, hsize⟩ := FieldType.ofChar?_unsigned _ hmem
    obtain rfl := Option.some.inj (h.symm.trans htype)
    exact ⟨hlen, FieldType.decode_unsigned (hlen.trans_le hsize) size⟩
  text size hmem := by
    obtain rfl := Option.some.inj (h.symm.trans (FieldType.ofChar?_text _ hmem))
    exact ⟨hlen, FieldType.decode_text bytes size⟩
  array hc := by
    obtain rfl : FieldType.array = type := by
      subst hc
      exact Option.some.inj h
    exact ⟨hlen, _, rfl, Bytes.toInt16s_pairs (n := 32) hlen⟩

def fieldsSize (characters : List Char) : Nat :=
  characters.foldr (fun c size => (fieldSize? c).getD 0 + size) 0

theorem fieldsSize_append (front back : List Char) :
    fieldsSize (front ++ back) = fieldsSize front + fieldsSize back := by
  induction front with
  | nil => exact (Nat.zero_add _).symm
  | cons c front ih =>
    simp only [fieldsSize, List.cons_append, List.foldr_cons] at ih ⊢
    omega

theorem fieldSize?_eq_some {c : Char} {type : FieldType} (h : FieldType.ofChar? c = some type) :
    fieldSize? c = some type.size := by
  rw [fieldSize?, h, Option.map_some]

namespace Definition

def alone (c : Char) (column : String) : Definition where
  typeId := 0
  length := headerSize + (fieldSize? c).getD 0
  name := ""
  format := String.ofList [c]
  columns := [column]

/-- Where the bytes of a field start: behind those of all fields before it. -/
def place (d : Definition) (i : Nat) : Nat := fieldsSize (d.format.toList.take i)

def fieldBytes (d : Definition) (i : Nat) (payload : List UInt8) : List UInt8 :=
  (payload.drop (d.place i)).take ((d.format.toList[i]?.bind fieldSize?).getD 0)

theorem decode_alone {c : Char} {type : FieldType} (h : FieldType.ofChar? c = some type)
    {bytes : List UInt8} (hlen : bytes.length = type.size) (column : String) :
    (alone c column).decode bytes = .ok [(column, type.decode bytes)] := by
  have hd := decodeField_append h hlen []
  rw [List.append_nil] at hd
  simp [decode, alone, decodeFields, hd, bind, Except.bind, pure, Except.pure]

theorem place_add_le {d : Definition} {i : Nat} {c : Char} (h : d.format.toList[i]? = some c) :
    d.place i + (fieldSize? c).getD 0 ≤ d.payloadSize := by
  obtain ⟨hi, rfl⟩ := List.getElem?_eq_some_iff.mp h
  have hsplit := List.take_append_drop i d.format.toList
  rw [List.drop_eq_getElem_cons hi] at hsplit
  have hsize : d.payloadSize = fieldsSize (d.format.toList.take i ++
      d.format.toList[i] :: d.format.toList.drop (i + 1)) := by rw [hsplit]; rfl
  rw [hsize, fieldsSize_append, place]
  simp only [fieldsSize, List.foldr_cons]
  omega

/-- Fields are decoded one behind the other, each from the bytes at its place. -/
theorem decodeFields_places {characters : List Char} {columns : List String}
    (known : ∀ c ∈ characters, (FieldType.ofChar? c).isSome)
    (hlen : columns.length = characters.length) {payload : List UInt8}
    (room : fieldsSize characters ≤ payload.length) :
    ∃ values, decodeFields (characters.zip columns) payload = .ok (columns.zip values) ∧
      values.length = columns.length ∧ ∀ i c type, characters[i]? = some c →
        FieldType.ofChar? c = some type → values[i]? = some (type.decode
          ((payload.drop (fieldsSize (characters.take i))).take type.size)) := by
  induction characters generalizing columns payload with
  | nil =>
    obtain rfl := List.length_eq_zero_iff.mp hlen
    exact ⟨[], rfl, rfl, fun i c type hc => by simp at hc⟩
  | cons c more ih =>
    match columns, hlen with
    | column :: columns, hlen =>
      obtain ⟨type, ht⟩ := Option.isSome_iff_exists.mp (known c List.mem_cons_self)
      have hsize : (fieldSize? c).getD 0 = type.size := by simp [fieldSize?_eq_some ht]
      have hroom : type.size + fieldsSize more ≤ payload.length := hsize ▸ room
      have hmore : fieldsSize more ≤ (payload.drop type.size).length := by
        rw [List.length_drop]
        omega
      obtain ⟨values, hdecode, hcount, hvalues⟩ :=
        ih (fun c' h => known c' (List.mem_cons_of_mem _ h)) (Nat.succ.inj hlen) hmore
      have hfirst := decodeField_append ht
        (List.length_take_of_le (Nat.le_trans (Nat.le_add_right ..) hroom)) (payload.drop type.size)
      rw [List.take_append_drop] at hfirst
      refine ⟨type.decode (payload.take type.size) :: values, ?_, ?_, fun i c' type' hc ht' => ?_⟩
      · simp only [List.zip_cons_cons, decodeFields, hfirst, hdecode, bind, Except.bind, pure,
          Except.pure]
      · rw [List.length_cons, List.length_cons, hcount]
      · cases i with
        | zero =>
          obtain rfl : c = c' := by simpa using hc
          obtain rfl := Option.some.inj (ht.symm.trans ht')
          rfl
        | succ i =>
          have hplace : fieldsSize ((c :: more).take (i + 1)) =
              type.size + fieldsSize (more.take i) := by
            rw [← hsize]
            rfl
          rw [List.getElem?_cons_succ, hplace, ← List.drop_drop]
          exact hvalues i c' type' (by simpa using hc) ht'

theorem fieldBytes_eq {d : Definition} {i : Nat} {c : Char} {type : FieldType}
    (hc : d.format.toList[i]? = some c) (ht : FieldType.ofChar? c = some type)
    (payload : List UInt8) :
    d.fieldBytes i payload = (payload.drop (d.place i)).take type.size := by
  simp [fieldBytes, hc, fieldSize?_eq_some ht]

theorem length_fieldBytes {d : Definition} {i : Nat} {c : Char} {type : FieldType}
    (hc : d.format.toList[i]? = some c) (ht : FieldType.ofChar? c = some type)
    {payload : List UInt8} (room : d.payloadSize ≤ payload.length) :
    (d.fieldBytes i payload).length = type.size := by
  have hle := place_add_le hc
  rw [fieldSize?_eq_some ht, Option.getD_some] at hle
  rw [fieldBytes_eq hc ht, List.length_take_of_le]
  rw [List.length_drop]
  omega

theorem fieldBytes_take_append (d : Definition) (i : Nat) {payload : List UInt8}
    (room : d.payloadSize ≤ payload.length) (past : List UInt8) :
    d.fieldBytes i (payload.take d.payloadSize ++ past) = d.fieldBytes i payload := by
  unfold fieldBytes
  cases hc : d.format.toList[i]? with
  | none => rfl
  | some c =>
    have hle := place_add_le hc
    have hfront : (payload.take d.payloadSize).length = d.payloadSize :=
      List.length_take_of_le room
    rw [Option.bind_some, List.drop_append_of_le_length (by omega),
      List.take_append_of_le_length (by rw [List.length_drop]; omega), List.drop_take,
      List.take_take, Nat.min_eq_left (by omega)]

/-- Values for the fields of a payload, each decoded from the bytes of its field. -/
structure InPlace (d : Definition) (payload : List UInt8) (values : List Value) : Prop where
  count : values.length = d.columns.length
  value : ∀ i c type, d.format.toList[i]? = some c → FieldType.ofChar? c = some type →
    values[i]? = some (type.decode (d.fieldBytes i payload))

theorem Matched.decode_inPlace {d : Definition} (h : d.Matched) {payload : List UInt8}
    (room : d.payloadSize ≤ payload.length) :
    ∃ values, d.decode payload = .ok (d.columns.zip values) ∧ d.InPlace payload values := by
  obtain ⟨values, hdecode, hcount, hvalues⟩ := decodeFields_places h.known h.columns room
  refine ⟨values, hdecode, { count := hcount, value := fun i c type hc ht => ?_ }⟩
  rw [fieldBytes_eq hc ht]
  exact hvalues i c type hc ht

/-- The same bytes at the place of a field have the same value. -/
theorem Matched.congr {d : Definition} (hd : d.Matched) {payload payload' : List UInt8}
    {values values' : List Value} (h : d.InPlace payload values) (h' : d.InPlace payload' values')
    {i : Nat}
    (hsame : d.fieldBytes i payload' = d.fieldBytes i payload) : values'[i]? = values[i]? := by
  have hlen := hd.columns
  have hcount := h.count
  have hcount' := h'.count
  cases hc : d.format.toList[i]? with
  | none =>
    have hbeyond := List.getElem?_eq_none_iff.mp hc
    rw [List.getElem?_eq_none (by omega), List.getElem?_eq_none (by omega)]
  | some c =>
    obtain ⟨type, ht⟩ := Option.isSome_iff_exists.mp (hd.known c (List.mem_of_getElem? hc))
    rw [h.value i c type hc ht, h'.value i c type hc ht, hsame]

/-- A payload with room for the fields of an accepted definition is decoded as one field for each
column. The value of a field is what its own bytes give when they are decoded alone, so that another
payload with the same bytes at that place has the same value there, and what stands past the fields
does not matter. -/
theorem decode_by_places {typeId : UInt8} {length : Nat} {name format columns : String}
    {d : Definition} (haccepted : ofParts typeId length name format columns = .ok d)
    {payload : List UInt8} (room : d.payloadSize ≤ payload.length) :
    ∃ values, d.decode payload = .ok (d.columns.zip values) ∧ values.length = d.columns.length ∧
      (∀ i < d.columns.length, ∃ c column value, d.format.toList[i]? = some c ∧
        d.columns[i]? = some column ∧ values[i]? = some value ∧
          fieldSize? c = some (d.fieldBytes i payload).length ∧
          (alone c column).decode (d.fieldBytes i payload) = .ok [(column, value)] ∧
          ReadFrom c (d.fieldBytes i payload) value) ∧
      (∀ payload', d.payloadSize ≤ payload'.length →
        ∃ values', d.decode payload' = .ok (d.columns.zip values') ∧
          ∀ i, d.fieldBytes i payload' = d.fieldBytes i payload → values'[i]? = values[i]?) ∧
      ∀ past, d.decode (payload.take d.payloadSize ++ past) = d.decode payload := by
  have hd : d.Matched := matched_of_ofParts haccepted
  obtain ⟨values, hdecode, hplace⟩ := hd.decode_inPlace room
  refine ⟨values, hdecode, hplace.count, fun i hi => ?_, fun payload' room' => ?_, fun past => ?_⟩
  · have hi' : i < d.format.toList.length := hd.columns ▸ hi
    have hc : d.format.toList[i]? = some (d.format.toList[i]) := List.getElem?_eq_getElem hi'
    obtain ⟨type, ht⟩ := Option.isSome_iff_exists.mp (hd.known _ (List.mem_of_getElem? hc))
    have hbytes := length_fieldBytes hc ht room
    refine ⟨_, _, _, hc, List.getElem?_eq_getElem hi, hplace.value i _ type hc ht, ?_, ?_, ?_⟩
    · rw [fieldSize?_eq_some ht, hbytes]
    · exact decode_alone ht hbytes _
    · exact readFrom_decode ht hbytes
  · obtain ⟨values', hdecode', hplace'⟩ := hd.decode_inPlace room'
    exact ⟨values', hdecode', fun i hsame => hd.congr hplace hplace' hsame⟩
  · have hfront : (payload.take d.payloadSize).length = d.payloadSize :=
      List.length_take_of_le room
    have hroom : d.payloadSize ≤ (payload.take d.payloadSize ++ past).length := by
      rw [List.length_append]
      omega
    obtain ⟨values', hdecode', hplace'⟩ := hd.decode_inPlace hroom
    have hvalues' : values' = values := List.ext_getElem? fun i =>
      hd.congr hplace hplace' (fieldBytes_take_append d i room past)
    rw [hdecode', hdecode, hvalues']

/-- A negative number, a text that ends at a NUL, a number behind them and a byte too many. -/
theorem decode_by_places_signed :
    let d : Definition := {
      typeId := 7, length := 9, name := "MIX", format := "hnH", columns := ["A", "B", "C"] }
    let payload : List UInt8 := [0xFF, 0x80, 0x41, 0x00, 0x42, 0x43, 0xFF, 0x80, 0x05]
    ofParts 7 9 "MIX" "hnH" "A, B,,C" = .ok d ∧ d.payloadSize ≤ payload.length ∧
      ∃ values, d.decode payload = .ok (d.columns.zip values) ∧
        (∃ n, values[0]? = some (.int n) ∧ n.toInt = -32513) ∧
        (∃ text, values[1]? = some text ∧
          (alone 'n' "B").decode [0x41, 0x00, 0x42, 0x43] = .ok [("B", text)]) ∧
        (∃ n, values[2]? = some (.uint n) ∧ n.toNat = 33023) ∧
        d.decode (payload.take 8 ++ [0xA3, 0x95]) = d.decode payload := by
  intro d payload
  have haccepted : ofParts 7 9 "MIX" "hnH" "A, B,,C" = .ok d := by decide +kernel
  have hsize : d.payloadSize = 8 := by decide
  have hbytes : d.fieldBytes 1 payload = [0x41, 0x00, 0x42, 0x43] := by decide
  have hroom : d.payloadSize ≤ payload.length := by decide
  obtain ⟨values, hdecode, -, hfields, -, hpast⟩ := decode_by_places haccepted hroom
  refine ⟨haccepted, hroom, values, hdecode, ?_, ?_, ?_, hsize ▸ hpast [0xA3, 0x95]⟩
  · obtain ⟨c, column, value, hc, -, hvalue, -, -, hread⟩ := hfields 0 (by decide)
    obtain rfl : 'h' = c := by simpa [d] using hc
    obtain ⟨-, n, rfl, hn⟩ := hread.signed 2 (by decide)
    exact ⟨n, hvalue, hn.trans (by decide)⟩
  · obtain ⟨c, column, value, hc, hcolumn, hvalue, -, halone, -⟩ := hfields 1 (by decide)
    obtain rfl : 'n' = c := by simpa [d] using hc
    obtain rfl : "B" = column := by simpa [d] using hcolumn
    exact ⟨value, hvalue, hbytes ▸ halone⟩
  · obtain ⟨c, column, value, hc, -, hvalue, -, -, hread⟩ := hfields 2 (by decide)
    obtain rfl : 'H' = c := by simpa [d] using hc
    obtain ⟨-, n, rfl, hn⟩ := hread.unsigned 2 (by decide)
    exact ⟨n, hvalue, hn.trans (by decide)⟩

end Definition

end DataFlash
