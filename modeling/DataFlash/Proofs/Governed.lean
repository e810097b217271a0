import DataFlash.Proofs.Grammar
import DataFlash.Proofs.Places

namespace DataFlash

/-- The values of the fields of a kind in a log. A text log leaves an array as it is written. -/
inductive Prescribed : LogKind → FieldKind → Value → Prop where
  | signed (log : LogKind) (n : Int64) : Prescribed log .signed (.int n)
  | unsigned (log : LogKind) (n : UInt64) : Prescribed log .unsigned (.uint n)
  | float (log : LogKind) (x : Float) : Prescribed log .float (.float x)
  | text (log : LogKind) (s : String) : Prescribed log .text (.text s)
  | array (ns : List Int16) : ns.length = 32 → Prescribed .binary .array (.array ns)
  | arrayText (s : String) : Prescribed .text .array (.text s)

def Suits (log : LogKind) (c : Char) (v : Value) : Prop :=
  ∃ kind ∈ FieldKind.ofChar? c, Prescribed log kind v

/-- A record with the name and the columns of a definition, and values that suit its characters. -/
structure Definition.Governs (d : Definition) (log : LogKind) (r : Record) : Prop where
  name : r.name = d.name
  columns : r.fields.map (·.1) = d.columns
  values : List.Forall₂ (Suits log) d.format.toList (r.fields.map (·.2))

namespace FieldType

theorem prescribed_decode {type : FieldType} {bytes : List UInt8}
    (h : bytes.length = type.size) : Prescribed .binary type.kind (type.decode bytes) := by
  cases type with
  | signed | unsigned | single | double | scaledSigned | scaledUnsigned | text => constructor
  | array => exact .array _ (Bytes.toInt16s_pairs (n := 32) h).1

theorem prescribed_parse {type : FieldType} {raw : String} {v : Value}
    (h : type.parse? raw = some v) : Prescribed .text type.kind v := by
  cases type with
  | text | array =>
    cases h
    constructor
  | signed | unsigned | single | double | scaledSigned | scaledUnsigned =>
    obtain ⟨_, -, rfl⟩ := Option.map_eq_some_iff.mp h
    constructor

end FieldType

namespace Definition

variable {c : Char} {v : Value} {characters : List Char} {columns : List String}
  {fields : List (String × Value)}

theorem suits_of_type {log : LogKind} {type : FieldType} (h : FieldType.ofChar? c = some type)
    (hv : Prescribed log type.kind v) : Suits log c v :=
  ⟨type.kind, FieldKind.ofChar?_of_type h, hv⟩

theorem suits_decodeField {payload rest : List UInt8}
    (h : decodeField c payload = .ok (v, rest)) : Suits .binary c v := by
  unfold decodeField at h
  split at h
  · cases h
  · next type htype =>
    split at h
    · cases h
    · next bytes _ hsplit =>
      cases h
      exact suits_of_type htype (FieldType.prescribed_decode (Bytes.split?_eq_some hsplit).2)

theorem suits_parseField (known : (FieldType.ofChar? c).isSome) {raw : String}
    (h : parseField c raw = .ok v) : Suits .text c v := by
  obtain ⟨type, htype⟩ := Option.isSome_iff_exists.mp known
  rw [parseField, htype] at h
  dsimp only at h
  split at h
  · next hv =>
    cases h
    exact suits_of_type htype (FieldType.prescribed_parse hv)
  · cases h

theorem decodeFields_suits (hcolumns : columns.length = characters.length) {payload : List UInt8}
    (h : decodeFields (characters.zip columns) payload = .ok fields) :
    fields.map (·.1) = columns ∧ List.Forall₂ (Suits .binary) characters (fields.map (·.2)) := by
  induction characters generalizing columns payload fields with
  | nil =>
    obtain rfl := List.length_eq_zero_iff.mp hcolumns
    cases h
    exact ⟨rfl, .nil⟩
  | cons c characters ih =>
    obtain ⟨column, columns, rfl⟩ := List.exists_cons_of_length_eq_add_one hcolumns
    obtain ⟨⟨v, rest⟩, hv, h⟩ := bind_eq_ok.mp h
    obtain ⟨more, hmore, h⟩ := bind_eq_ok.mp h
    cases h
    obtain ⟨hnames, hvalues⟩ := ih (Nat.succ.inj hcolumns) hmore
    exact ⟨congrArg (column :: ·) hnames, .cons (suits_decodeField hv) hvalues⟩

theorem parseFields_suits (known : ∀ c ∈ characters, (FieldType.ofChar? c).isSome)
    (hcolumns : columns.length = characters.length) {values : List String}
    (hvalues : values.length = characters.length)
    (h : parseFields ((characters.zip columns).zip values) = .ok fields) :
    fields.map (·.1) = columns ∧ List.Forall₂ (Suits .text) characters (fields.map (·.2)) := by
  induction characters generalizing columns values fields with
  | nil =>
    obtain rfl := List.length_eq_zero_iff.mp hcolumns
    cases h
    exact ⟨rfl, .nil⟩
  | cons c characters ih =>
    obtain ⟨column, columns, rfl⟩ := List.exists_cons_of_length_eq_add_one hcolumns
    obtain ⟨raw, values, rfl⟩ := List.exists_cons_of_length_eq_add_one hvalues
    obtain ⟨v, hv, h⟩ := bind_eq_ok.mp h
    obtain ⟨more, hmore, h⟩ := bind_eq_ok.mp h
    cases h
    obtain ⟨hnames, hsuits⟩ := ih (fun c' h => known c' (List.mem_cons_of_mem _ h))
      (Nat.succ.inj hcolumns) (Nat.succ.inj hvalues) hmore
    exact ⟨congrArg (column :: ·) hnames,
      .cons (suits_parseField (known c List.mem_cons_self) hv) hsuits⟩

end Definition

namespace BinaryLog

variable {l : BinaryLog}

theorem Coherent.governs_next (h : l.Coherent) {start : Nat} {typeId : UInt8} {d : Definition}
    {payload : List UInt8} (hn : l.Next start typeId d payload) {r : Record}
    (hr : l.pull.item = some (.ok r)) : d.Governs .binary r := by
  obtain ⟨fields, hdecode, -⟩ := h.decode_next hn
  obtain ⟨hcolumns, hvalues⟩ := Definition.decodeFields_suits
    (h.table.entry typeId d hn.defined).2.columns hdecode
  rw [(h.pull_next hn).1, Option.some.injEq] at hr
  obtain rfl := interpret_ok hdecode hr
  exact { name := rfl, columns := hcolumns, values := hvalues }

/-- An error leaves a log as it was, but behind the definition that is refused. -/
theorem Coherent.next_of_refused (h : l.Coherent) {e : LogError}
    (he : l.pull.item = some (.error e)) : ∃ start d payload,
      l.Next start Definition.defining.typeId d payload ∧ l.pull.next = { l with
        offset := start + d.length
        rest := l.source.drop (start + d.length) } := by
  obtain ⟨d, hd⟩ := Option.isSome_iff_exists.mp h.table.defining
  obtain ⟨start, payload, hn⟩ := h.next_of_error hd he
  obtain ⟨fields, hdecode, -⟩ := h.decode_next hn
  have hrefused := (h.item_definition hn hdecode e).mp he
  refine ⟨start, d, payload, hn, ?_⟩
  rw [(h.pull_next hn).2, interpret_refused hdecode rfl hrefused]

end BinaryLog

namespace TextLog

variable {table : Table String} {line : Nat} {text : List Char} {r : Record}

theorem name_of_readDefinition {values : List String} {d : Definition}
    (h : readDefinition line values = .ok (d, r)) : r.name = "FMT" := by
  obtain ⟨t, n, name, format, columns, -, -, rfl⟩ := readDefinition_eq_ok h
  rfl

theorem governs_readData {d : Definition} (hd : d.Matched) {name : String} (hname : d.name = name)
    {raws : List String} (h : given (readData d line name raws) = some (.ok r)) :
    r.name = name ∧ d.Governs .text r := by
  unfold readData Definition.parse at h
  split at h
  · cases h
  · next hlen =>
    have hcount : raws.length = d.columns.length := not_not.mp hlen
    split at h
    · next fields hfields =>
      cases h
      obtain ⟨hnames, hvalues⟩ :=
        Definition.parseFields_suits hd.known hd.columns (hcount.trans hd.columns) hfields
      exact ⟨rfl, { name := hname.symm, columns := hnames, values := hvalues }⟩
    · cases h

/-- A record that is no definition is governed by the definition of its name. -/
theorem governs_readLine {lines : List (List Char)} {i : Nat}
    (h : given (readLine (tableAfter lines i) line text) = some (.ok r)) (hne : r.name ≠ "FMT") :
    ∃ d, (tableAfter lines i).get? r.name = some d ∧ d.Governs .text r := by
  obtain ⟨name, raws, hvalues⟩ := exists_values text
  rw [readLine_eq hvalues (trim_ne_nil_of_given h)] at h
  split at h
  · split at h
    · next hd =>
      cases h
      exact absurd (name_of_readDefinition hd) hne
    · cases h
  · split at h
    · cases h
    · next d hd =>
      obtain ⟨hname, hmatched⟩ := (get?_tableAfter.mp hd).matched
      obtain ⟨rfl, hgoverns⟩ := governs_readData hmatched hname h
      exact ⟨d, hd, hgoverns⟩

section Lines

variable {lines : List (List Char)} {start i : Nat}

theorem tableAfter_of_outcome (h : ∀ r, outcome lines i ≠ some (.ok r)) :
    tableAfter lines (i + 1) = tableAfter lines i := by
  refine tableAfter_of_not_teaches fun d ⟨text, htext, hd⟩ => ?_
  obtain ⟨r, hr⟩ := (defines_iff (tableAfter lines i) (i + 1)).mp hd
  exact h r (by rw [outcome, htext, Option.bind_some, hr]; rfl)

theorem tableAfter_of_isLeast (h : IsLeast (givers lines start) i) :
    tableAfter lines i = tableAfter lines start := by
  have hsilent : ∀ j, start ≤ j → j ≤ i → tableAfter lines j = tableAfter lines start := by
    -- On the line reached; each line before the first that gives something teaches nothing.
    intro j hj
    induction j, hj using Nat.le_induction with
    | base => exact fun _ => rfl
    | succ j hj ih =>
      intro hi
      rw [← ih (Nat.le_of_succ_le hi)]
      refine tableAfter_of_outcome fun r hr => ?_
      have hle : i ≤ j := h.2 ⟨hj, by simp [hr]⟩
      omega
  exact hsilent i h.1.1 (Nat.le_refl i)

variable {l : TextLog}

theorem Stands.exists_line (h : Stands lines l) {item : Except LogError Record}
    (hitem : l.pull.item = some item) : ∃ i, IsLeast (givers lines l.line) i ∧
      outcome lines i = some item ∧ l.pull.next.line = i + 1 ∧ tableAfter lines i = l.table := by
  cases (h.advance []).2 with
  | ended _ hend =>
    cases hend.symm.trans hitem
  | @item i item' hleast houtcome hitem' hline =>
    obtain rfl : item' = item := Option.some.inj (hitem'.symm.trans hitem)
    exact ⟨i, hleast, houtcome, hline, (tableAfter_of_isLeast hleast).trans h.table.symm⟩

theorem Stands.governs_pull (h : Stands lines l) (hr : l.pull.item = some (.ok r))
    (hne : r.name ≠ "FMT") : ∃ d, l.table.get? r.name = some d ∧ d.Governs .text r := by
  obtain ⟨i, -, houtcome, -, htable⟩ := h.exists_line hr
  obtain ⟨text, -, hgiven⟩ := Option.bind_eq_some_iff.mp houtcome
  exact htable ▸ governs_readLine hgiven hne

/-- An error leaves a log as it was, but behind the line that is refused. -/
theorem Stands.next_of_refused (h : Stands lines l) {e : LogError}
    (he : l.pull.item = some (.error e)) : ∃ i told, IsLeast (givers lines l.line) i ∧
      outcome lines i = some (.error e) ∧
        l.pull.next = { l with line := i + 1, rest := lines.drop (i + 1), told } := by
  obtain ⟨i, hleast, houtcome, hline, htable⟩ := h.exists_line he
  have hnext : Stands lines l.pull.next := (h.advance []).1
  have hrecord (r : Record) : outcome lines i ≠ some (.ok r) := by
    rw [houtcome]
    simp
  have hlearned : tableAfter lines (i + 1) = l.table :=
    (tableAfter_of_outcome hrecord).trans htable
  refine ⟨i, l.pull.next.told, hleast, houtcome, ?_⟩
  -- What has been told is all that may differ, so the log is compared field by field.
  generalize l.pull.next = next at *
  obtain ⟨source, line, rest, table, told, limit⟩ := next
  obtain rfl : line = i + 1 := hline
  obtain rfl : source = l.source := hnext.source.trans h.source.symm
  obtain rfl : rest = lines.drop (i + 1) := hnext.rest
  obtain rfl : table = l.table := hnext.table.trans hlearned
  obtain rfl : limit = l.limit := hnext.limit.trans h.limit.symm
  rfl

end Lines

end TextLog

/-- The newest accepted definition governs, and one that is refused leaves no trace. After any calls
a binary log holds for each type the newest definition that was accepted since the start or the last
rewind, and a text log for each name that of the newest line that defines one. A record with data
has the name and the columns of its definition and values of the kinds that the characters
prescribe. After an error everything is as before the call, but the log stands just behind the
message or the line that is refused. -/
theorem newest_definition_governs (bytes : List UInt8) (calls : List Cursor.Call) :
    (let l := calls.foldl Cursor.perform (BinaryLog.ofBytes bytes)
      let n := BinaryLog.pulls calls
      let accepted := fun i => (BinaryLog.pulled bytes i).Accepts
      l = BinaryLog.pulled bytes n ∧
      (∀ typeId d, l.table.get? typeId = some d ↔ Newest (·.typeId) accepted n typeId d ∨
        (Absent (·.typeId) accepted n typeId ∧
          typeId = Definition.defining.typeId ∧ d = Definition.defining)) ∧
      (∀ r, l.pull.item = some (.ok r) → ∃ start typeId d payload,
        l.Next start typeId d payload ∧ d.Governs .binary r) ∧
      ∀ e, l.pull.item = some (.error e) → ∃ start d payload,
        l.Next start Definition.defining.typeId d payload ∧ l.pull.next = { l with
          offset := start + d.length
          rest := l.source.drop (start + d.length) }) ∧
    (let l := calls.foldl TextLog.perform (TextLog.ofBytes bytes)
      let lines := Text.lines (Utf8.decode bytes)
      (∀ name d, l.table.get? name = some d ↔ TextLog.InForce lines l.line name d) ∧
      (∀ r, l.pull.item = some (.ok r) → r.name ≠ "FMT" → ∃ d,
        l.table.get? r.name = some d ∧ d.Governs .text r) ∧
      ∀ e, l.pull.item = some (.error e) → ∃ i told,
        IsLeast (TextLog.givers lines l.line) i ∧ TextLog.outcome lines i = some (.error e) ∧
          l.pull.next = { l with line := i + 1, rest := lines.drop (i + 1), told }) := by
  constructor
  · intro l n accepted
    have h : l.Coherent := Cursor.coherent_foldl bytes calls
    have hpulled : l = BinaryLog.pulled bytes n := BinaryLog.foldl_perform bytes calls
    refine ⟨hpulled, fun typeId d => ?_, fun r hr => ?_, fun e => h.next_of_refused⟩
    · rw [hpulled]
      exact BinaryLog.get?_pulled
    · obtain ⟨start, typeId, d, payload, hn⟩ := h.exists_next hr
      exact ⟨start, typeId, d, payload, hn, h.governs_next hn hr⟩
  · intro l lines
    have h : TextLog.Stands lines l := TextLog.stands_foldl lines calls
    refine ⟨fun name d => ?_, fun r => h.governs_pull, fun e => h.next_of_refused⟩
    rw [h.table]
    exact TextLog.get?_tableAfter

/-- A second definition of a message is refused, and the message behind it is read by the first. The
text log is refused a second definition as well. -/
theorem newest_definition_governs_refused :
    let first : Definition :=
      { typeId := 5, length := 4, name := "AB", format := "B", columns := ["x"] }
    let second : Definition := { first with format := "BH", columns := ["x", "y"] }
    let bytes := first.message ++ second.message ++ LogKind.sync ++ [5, 7]
    let atSecond := [Cursor.Call.pull].foldl Cursor.perform (BinaryLog.ofBytes bytes)
    let atData := [Cursor.Call.pull, .pull].foldl Cursor.perform (BinaryLog.ofBytes bytes)
    let text := Utf8.encode "FMT,5,4,AB,B,x\nFMT,5,4,AB,B?,x,y\nAB,7\n"
    let onSecond := [Cursor.Call.pull].foldl TextLog.perform (TextLog.ofBytes text)
    (∃ e, atSecond.pull.item = some (.error e) ∧ ∃ start d payload,
      atSecond.Next start Definition.defining.typeId d payload ∧
        atSecond.pull.next = { atSecond with
          offset := start + d.length
          rest := atSecond.source.drop (start + d.length) }) ∧
    Newest (·.typeId) (fun i => (BinaryLog.pulled bytes i).Accepts) 2 5 first ∧
    (∃ r, atData.pull.item = some (.ok r) ∧ ∃ start typeId d payload,
      atData.Next start typeId d payload ∧ d.Governs .binary r) ∧
    ∃ e, onSecond.pull.item = some (.error e) ∧ onSecond.pull.next.table = onSecond.table := by
  intro first second bytes atSecond atData text onSecond
  obtain ⟨⟨-, -, -, hrefused⟩, -⟩ := newest_definition_governs bytes [.pull]
  obtain ⟨⟨-, hnewest, hgoverned, -⟩, -⟩ := newest_definition_governs bytes [.pull, .pull]
  obtain ⟨-, -, -, hrefusedLine⟩ := newest_definition_governs text [.pull]
  refine ⟨?_, ?_, ?_, ?_⟩
  · have he : atSecond.pull.item = some (.error (.lengthTooSmall "AB" 4 6)) :=
      Feed.eq_error_of_errors (by decide +kernel)
    exact ⟨_, he, hrefused _ he⟩
  · have hfirst : atData.table.get? 5 = some first := by decide +kernel
    rcases (hnewest 5 first).mp hfirst with h | ⟨-, h, -⟩
    · exact h
    · exact absurd h (by decide)
  · have hok : atData.pull.item.map Except.isOk = some true := by decide +kernel
    obtain ⟨item, hitem, hr⟩ := Option.map_eq_some_iff.mp hok
    cases item with
    | ok r => exact ⟨r, hitem, hgoverned r hitem⟩
    | error e => cases hr
  · have he : onSecond.pull.item = some (.error (.unknownCharacter '?' "AB")) :=
      Feed.eq_error_of_errors (by decide +kernel)
    obtain ⟨i, told, -, -, hnext⟩ := hrefusedLine _ he
    exact ⟨_, he, hnext ▸ rfl⟩

end DataFlash
