import DataFlash.Proofs.History
import DataFlash.Proofs.Layout

namespace DataFlash

inductive FieldKind where
  | signed
  | unsigned
  | float
  | text
  | array
  deriving DecidableEq, Repr

namespace FieldKind

def ofChar? : Char → Option FieldKind
  | 'b' | 'h' | 'i' | 'q' => some signed
  | 'B' | 'H' | 'I' | 'M' | 'Q' => some unsigned
  | 'f' | 'd' | 'c' | 'C' | 'e' | 'E' | 'L' => some float
  | 'n' | 'N' | 'Z' => some text
  | 'a' => some array
  | _ => none

/-- The texts that a field of a kind is read from. Integers have 64 bits, whatever the size of their
fields. -/
def Reads : FieldKind → String → Prop
  | signed, raw => (Numeral.signed? raw.toList).isSome
  | unsigned, raw => (Numeral.unsigned? raw.toList).isSome
  | float, raw => (Numeral.float? raw.toList).isSome
  | text, _ | array, _ => True

end FieldKind

def FieldType.kind : FieldType → FieldKind
  | signed _ => .signed
  | unsigned _ => .unsigned
  | single | double | scaledSigned .. | scaledUnsigned .. => .float
  | text _ => .text
  | array => .array

theorem FieldKind.ofChar?_eq (c : Char) : ofChar? c = (FieldType.ofChar? c).map FieldType.kind := by
  unfold FieldType.ofChar?
  split
  all_goals try rfl
  unfold ofChar?
  split <;> simp_all

theorem FieldKind.ofChar?_of_type {c : Char} {type : FieldType}
    (h : FieldType.ofChar? c = some type) : ofChar? c = some type.kind := by
  rw [ofChar?_eq, h, Option.map_some]

theorem FieldType.isSome_parse? (type : FieldType) (raw : String) :
    (type.parse? raw).isSome ↔ type.kind.Reads raw := by
  cases type <;> simp [parse?, kind, FieldKind.Reads]

def Parses (c : Char) (raw : String) : Prop := ∃ kind ∈ FieldKind.ofChar? c, kind.Reads raw

namespace Definition

theorem parseField_ok_iff {c : Char} {type : FieldType} (h : FieldType.ofChar? c = some type)
    (raw : String) : (∃ v, parseField c raw = .ok v) ↔ Parses c raw := by
  have hkind := FieldKind.ofChar?_of_type h
  simp only [Parses, hkind, Option.mem_some_iff, exists_eq_left', ← FieldType.isSome_parse?,
    parseField, h]
  cases type.parse? raw <;> simp

theorem parseFields_ok_iff {characters : List Char} {columns values : List String}
    (known : ∀ c ∈ characters, (FieldType.ofChar? c).isSome)
    (hcolumns : columns.length = characters.length) (hvalues : values.length = characters.length) :
    (∃ fields, parseFields ((characters.zip columns).zip values) = .ok fields) ↔
      List.Forall₂ Parses characters values := by
  induction characters generalizing columns values with
  | nil =>
    obtain rfl := List.length_eq_zero_iff.mp hvalues
    simp [parseFields]
  | cons c characters ih =>
    obtain ⟨column, columns, rfl⟩ := List.exists_cons_of_length_eq_add_one hcolumns
    obtain ⟨raw, values, rfl⟩ := List.exists_cons_of_length_eq_add_one hvalues
    obtain ⟨type, htype⟩ := Option.isSome_iff_exists.mp (known c List.mem_cons_self)
    have hfirst := parseField_ok_iff htype raw
    have hrest := ih (fun c' h => known c' (List.mem_cons_of_mem _ h)) (Nat.succ.inj hcolumns)
      (Nat.succ.inj hvalues)
    rw [List.forall₂_cons, ← hfirst, ← hrest]
    simp only [List.zip_cons_cons, parseFields, bind_eq_ok, pure, Except.pure, Except.ok.injEq]
    constructor
    · rintro ⟨_, v, hv, fields, hfields, -⟩
      exact ⟨⟨v, hv⟩, fields, hfields⟩
    · rintro ⟨⟨v, hv⟩, fields, hfields⟩
      exact ⟨_, v, hv, fields, hfields, rfl⟩

theorem ofParts_intercalate {typeId : UInt8} {length : Nat} {name format : String}
    {names : List String} {d : Definition} (hne : names ≠ [])
    (h : ∀ name ∈ names, ',' ∉ name.toList ∧ Text.trim name.toList = name.toList) :
    ofParts typeId length name format (",".intercalate names) = .ok d ↔
      (∀ c ∈ format.toList, (FieldKind.ofChar? c).isSome) ∧
        (names.filter (· ≠ "")).length = format.toList.length ∧
        d = { typeId, length, name, format, columns := names.filter (· ≠ "") } := by
  simp only [ofParts_eq_ok, columnsOf_intercalate hne h, FieldKind.ofChar?_eq, Option.isSome_map]

end Definition

namespace TextLog

/-- The values that define a message: two numbers, the first of them a byte, a name, known format
characters and one column for each. Columns that are empty are no columns. -/
inductive Spells : List String → Definition → Prop where
  | intro {type length name format column : String} {more : List String} {t n : UInt64} :
      Numeral.unsigned? type.toList = some t → Numeral.unsigned? length.toList = some n →
      t.toNat ≤ 255 → (∀ c ∈ format.toList, (FieldKind.ofChar? c).isSome) →
      ((column :: more).filter (· ≠ "")).length = format.toList.length →
      Spells (type :: length :: name :: format :: column :: more) {
        typeId := t.toUInt8, length := n.toNat, name, format
        columns := (column :: more).filter (· ≠ "") }

/-- A line defines a message if its name is FMT and the values behind it spell the definition. -/
def Defines (text : List Char) (d : Definition) : Prop :=
  ∃ spelled, values text = "FMT" :: spelled ∧ Spells spelled d

def Teaches (lines : List (List Char)) (i : Nat) (d : Definition) : Prop :=
  ∃ text, lines[i]? = some text ∧ Defines text d

/-- The definition of a name that is in force behind the first lines of a log is the newest on any
of these lines. -/
def InForce (lines : List (List Char)) (n : Nat) (name : String) (d : Definition) : Prop :=
  Newest (·.name) (Teaches lines) n name d

/-- What the grammar says that a line gives, by the definitions that are in force before it. -/
structure Conforms (inForce : String → Definition → Prop) (line : Nat) (text : List Char)
    (outcome : Option (Except LogError Record)) : Prop where
  blank : Text.trim text = [] → outcome = none
  definition : ∀ spelled, values text = "FMT" :: spelled →
    ((∃ r, outcome = some (.ok r)) ↔ ∃ d, Spells spelled d) ∧
      ((¬ ∃ d, Spells spelled d) → ∃ e, outcome = some (.error e) ∧ e.kind = .malformed)
  passed : ∀ name raws, values text = name :: raws → name ≠ "FMT" →
    (∀ d, inForce name d → raws.length ≠ d.columns.length) → outcome = none
  data : ∀ name raws d, Text.trim text ≠ [] → values text = name :: raws → name ≠ "FMT" →
    inForce name d → raws.length = d.columns.length →
      ((∃ r, outcome = some (.ok r)) ↔ List.Forall₂ Parses d.format.toList raws) ∧
        (¬ List.Forall₂ Parses d.format.toList raws → ∃ e words, outcome = some (.error e) ∧
          e.kind = .malformed ∧ e.detail = s!"Line {line}: " ++ words)

theorem Spells.matched {spelled : List String} {d : Definition} (h : Spells spelled d) :
    d.Matched := by
  obtain ⟨-, -, -, known, count⟩ := h
  refine { known := fun c hc => ?_, columns := count }
  have hkind := known c hc
  rwa [FieldKind.ofChar?_eq, Option.isSome_map] at hkind

section Line

variable {table : Table String} {line : Nat} {text : List Char} {name : String}
  {spelled : List String} {d : Definition} {r : Record} {e : LogError}

theorem definitionNumber_eq_ok {raw : String} {n : UInt64} :
    definitionNumber line raw = .ok n ↔ Numeral.unsigned? raw.toList = some n := by
  unfold definitionNumber
  cases Numeral.unsigned? raw.toList <;> simp

theorem readDefinition_eq_ok (h : readDefinition line spelled = .ok (d, r)) :
    ∃ t n : UInt64, ∃ name format columns, t.toNat < 256 ∧
      Definition.ofParts t.toUInt8 n.toNat name format columns = .ok d ∧
      r = {
        name := Definition.defining.name
        fields := Definition.defining.columns.zip
          [.uint t, .uint n, .text name, .text format, .text columns] } := by
  match spelled, h with
  | type :: length :: name :: format :: column :: more, h =>
    obtain ⟨t, -, h⟩ := bind_eq_ok.mp h
    obtain ⟨n, -, h⟩ := bind_eq_ok.mp h
    dsimp only at h
    split at h
    · cases h
    · next hbyte =>
      obtain ⟨d', hd, h⟩ := bind_eq_ok.mp h
      cases h
      exact ⟨t, n, name, format, _, Nat.lt_of_not_le hbyte, hd, rfl⟩

/-- The values behind FMT are read as the definition that they spell. -/
theorem readDefinition_iff
    (h : ∀ v ∈ spelled, ',' ∉ v.toList ∧ Text.trim v.toList = v.toList) :
    (∃ r, readDefinition line spelled = .ok (d, r)) ↔ Spells spelled d := by
  match spelled, h with
  | [], _ | [_], _ | [_, _], _ | [_, _, _], _ | [_, _, _, _], _ =>
    exact ⟨fun ⟨_, hr⟩ => (nomatch hr), fun hd => (nomatch hd)⟩
  | type :: length :: name :: format :: column :: more, h =>
    have hparts {typeId : UInt8} {n : Nat} {d : Definition} :=
      @Definition.ofParts_intercalate typeId n name format (column :: more) d
        (List.cons_ne_nil column more) fun v hv => h v (by simp [List.mem_cons.mp hv])
    simp only [readDefinition, bind_eq_ok, definitionNumber_eq_ok]
    constructor
    · rintro ⟨r, t, ht, n, hn, hr⟩
      split at hr
      · cases hr
      · next hbyte =>
        obtain ⟨d', hd', hr⟩ := bind_eq_ok.mp hr
        cases hr
        obtain ⟨known, count, rfl⟩ := hparts.mp hd'
        exact .intro ht hn (by omega) known count
    · -- The columns are joined and split again, which gives the parts back as they are trimmed.
      intro hspells
      cases hspells with
      | @intro _ _ _ _ _ _ t n ht hn hbyte known count =>
        simp only [ht, hn, Option.some.injEq, exists_eq_left']
        rw [if_neg (by omega), hparts.mpr ⟨known, count, rfl⟩]
        exact ⟨_, rfl⟩

theorem readDefinition_error_kind (h : readDefinition line spelled = .error e) :
    e.kind = .malformed := by
  have hnumber {raw : String} (h : definitionNumber line raw = .error e) : e.kind = .malformed := by
    unfold definitionNumber at h
    split at h
    · cases h
    · cases h
      rfl
  match spelled, h with
  | [], h | [_], h | [_, _], h | [_, _, _], h | [_, _, _, _], h =>
    cases h
    rfl
  | type :: length :: name :: format :: column :: more, h =>
    rw [readDefinition] at h
    rcases bind_eq_error.mp h with h | ⟨t, -, h⟩
    · exact hnumber h
    rcases bind_eq_error.mp h with h | ⟨n, -, h⟩
    · exact hnumber h
    dsimp only at h
    split at h
    · cases h
      rfl
    rcases bind_eq_error.mp h with h | ⟨d', -, h⟩
    · exact Definition.ofParts_error_kind h
    · cases h

theorem readDefinition_values (line : Nat) (h : values text = name :: spelled) :
    (∃ r, readDefinition line spelled = .ok (d, r)) ↔ Spells spelled d :=
  readDefinition_iff fun _ hv => value_of_mem (h ▸ List.mem_cons_of_mem name hv)

/-- A line teaches the definition that it defines, and no other line teaches one. -/
theorem defines_iff (table : Table String) (line : Nat) :
    Defines text d ↔ ∃ r, readLine table line text = .defines d r := by
  constructor
  · rintro ⟨spelled, h, hspells⟩
    obtain ⟨r, hr⟩ := (readDefinition_values line h).mpr hspells
    rw [readLine_eq h (trim_ne_nil h), if_pos rfl, hr]
    exact ⟨r, rfl⟩
  · rintro ⟨r, hr⟩
    obtain ⟨name, raws, h⟩ := exists_values text
    rw [readLine_eq h (trim_ne_nil_of_given (congrArg given hr))] at hr
    split at hr
    · next hname =>
      subst hname
      split at hr
      · next d' r' hd =>
        cases hr
        exact ⟨raws, h, (readDefinition_values line h).mp ⟨_, hd⟩⟩
      · cases hr
    · split at hr
      · cases hr
      · unfold readData at hr
        split at hr
        · cases hr
        · split at hr <;> cases hr

theorem readData_given (hd : d.Matched) (hlen : spelled.length = d.columns.length) :
    ((∃ r, given (readData d line name spelled) = some (.ok r)) ↔
        List.Forall₂ Parses d.format.toList spelled) ∧
      (¬ List.Forall₂ Parses d.format.toList spelled → ∃ e words,
        given (readData d line name spelled) = some (.error e) ∧ e.kind = .malformed ∧
          e.detail = s!"Line {line}: " ++ words) := by
  have hiff := Definition.parseFields_ok_iff hd.known hd.columns (hlen.trans hd.columns)
  rw [← hiff, readData, if_neg (by simp [hlen]), Definition.parse, if_neg (by simp [hlen])]
  cases Definition.parseFields ((d.format.toList.zip d.columns).zip spelled) with
  | ok fields => simp [given]
  | error cause =>
    refine ⟨by simp [given], fun _ => ⟨_, cause.kind.heading ++ cause.detail, rfl, rfl, ?_⟩⟩
    exact String.append_assoc

/-- A line is read as the grammar says, by the definitions of a table. -/
theorem readLine_conforms (matched : ∀ name d, table.get? name = some d → d.Matched) :
    Conforms (fun name d => table.get? name = some d) line text
      (given (readLine table line text)) where
  blank h := by
    rw [readLine_blank h]
    rfl
  definition spelled h := by
    have hiff {d : Definition} := @readDefinition_values text "FMT" spelled d line h
    rw [readLine_eq h (trim_ne_nil h), if_pos rfl]
    cases hr : readDefinition line spelled with
    | ok found =>
      obtain ⟨d, r⟩ := found
      have hspells : ∃ d, Spells spelled d := ⟨d, hiff.mp ⟨r, hr⟩⟩
      exact ⟨iff_of_true ⟨r, rfl⟩ hspells, fun hno => absurd hspells hno⟩
    | error e =>
      have hno : ¬ ∃ d, Spells spelled d := by
        rintro ⟨d, hspells⟩
        obtain ⟨r, hr'⟩ := hiff.mpr hspells
        rw [hr] at hr'
        cases hr'
      refine ⟨iff_of_false (fun ⟨r, h⟩ => by cases h) hno, fun _ => ⟨e, rfl, ?_⟩⟩
      exact readDefinition_error_kind hr
  passed name raws h hname hlen := by
    by_cases hblank : Text.trim text = []
    · rw [readLine_blank hblank]
      rfl
    · rw [readLine_eq h hblank, if_neg hname]
      split
      · rfl
      · next d hd =>
        rw [readData, if_pos (hlen d hd)]
        rfl
  data name raws d hne h hname hd hlen := by
    rw [readLine_eq h hne, if_neg hname, hd]
    exact readData_given (matched name d hd) hlen

theorem Conforms.error_kind {inForce : String → Definition → Prop}
    (h : Conforms inForce line text (some (.error e))) : e.kind = .malformed := by
  have hnot : ¬ ∃ r, some (Except.error e : Except LogError Record) = some (.ok r) := by simp
  have hself {e' : LogError}
      (he : some (Except.error e : Except LogError Record) = some (.error e')) : e' = e := by
    cases he
    rfl
  have hne : Text.trim text ≠ [] := fun hblank => nomatch h.blank hblank
  obtain ⟨name, raws, hvalues⟩ := exists_values text
  by_cases hname : name = "FMT"
  · subst hname
    obtain ⟨hiff, hrefused⟩ := h.definition raws hvalues
    obtain ⟨e', he', hkind⟩ := hrefused fun hspells => hnot (hiff.mpr hspells)
    exact hself he' ▸ hkind
  · by_cases hdefined : ∃ d, inForce name d ∧ raws.length = d.columns.length
    · obtain ⟨d, hd, hlen⟩ := hdefined
      obtain ⟨hiff, hrefused⟩ := h.data name raws d hne hvalues hname hd hlen
      obtain ⟨e', words, he', hkind, -⟩ := hrefused fun hparses => hnot (hiff.mpr hparses)
      exact hself he' ▸ hkind
    · cases h.passed name raws hvalues hname fun d hd hlen => hdefined ⟨d, hd, hlen⟩

end Line

def tableAfter (lines : List (List Char)) (n : Nat) : Table String :=
  (lines.take n).foldl (fun table text => learn table (readLine table 0 text)) {}

def outcome (lines : List (List Char)) (i : Nat) : Option (Except LogError Record) :=
  lines[i]?.bind fun text => given (readLine (tableAfter lines i) (i + 1) text)

section Lines

variable {lines : List (List Char)} {i : Nat} {text : List Char}

/-- What a line teaches does not depend on its number. -/
theorem learn_readLine (table : Table String) (line : Nat) (text : List Char) :
    learn table (readLine table line text) = learn table (readLine table 0 text) := by
  have hyields := yields_readLine table line text
  rw [yields_eq, yields_eq] at hyields
  exact congrArg Prod.fst hyields

theorem tableAfter_succ (h : lines[i]? = some text) (line : Nat) :
    tableAfter lines (i + 1) =
      learn (tableAfter lines i) (readLine (tableAfter lines i) line text) := by
  rw [learn_readLine, tableAfter, List.take_add_one, h, List.foldl_append]
  rfl

theorem Teaches.unique {d d' : Definition} (h : Teaches lines i d) (h' : Teaches lines i d') :
    d' = d := by
  obtain ⟨text, htext, hd⟩ := h
  obtain ⟨text', htext', hd'⟩ := h'
  obtain rfl := Option.some.inj (htext.symm.trans htext')
  obtain ⟨r, hr⟩ := (defines_iff {} 0).mp hd
  obtain ⟨r', hr'⟩ := (defines_iff {} 0).mp hd'
  cases hr.symm.trans hr'
  rfl

theorem tableAfter_of_teaches {d : Definition} (h : Teaches lines i d) :
    tableAfter lines (i + 1) = (tableAfter lines i).insert d.name d := by
  obtain ⟨text, htext, hd⟩ := h
  obtain ⟨r, hr⟩ := (defines_iff (tableAfter lines i) 0).mp hd
  rw [tableAfter_succ htext 0, hr]
  rfl

theorem tableAfter_of_not_teaches (hno : ∀ d, ¬ Teaches lines i d) :
    tableAfter lines (i + 1) = tableAfter lines i := by
  cases htext : lines[i]? with
  | none => simp [tableAfter, List.take_add_one, htext]
  | some text =>
    rw [tableAfter_succ htext 0]
    cases hr : readLine (tableAfter lines i) 0 text with
    | defines d r => exact absurd ⟨text, htext, (defines_iff _ 0).mpr ⟨r, hr⟩⟩ (hno d)
    | blank | data | passedOver | refused => rfl

theorem get?_tableAfter {name : String} {d : Definition} :
    (tableAfter lines i).get? name = some d ↔ InForce lines i name d := by
  have hnewest := @get?_eq_newest String i name d _ (·.name) (Teaches lines) (tableAfter lines)
    (fun _ _ _ => Teaches.unique) (fun _ _ => tableAfter_of_teaches)
    (fun _ => tableAfter_of_not_teaches)
  have hstart : (tableAfter lines 0).get? name = none := rfl
  rw [hnewest, hstart]
  simp [InForce]

theorem InForce.matched {name : String} {d : Definition} (h : InForce lines i name d) :
    d.name = name ∧ d.Matched := by
  obtain ⟨j, -, ⟨text, -, spelled, -, hspells⟩, hname, -⟩ := h
  exact ⟨hname, hspells.matched⟩

theorem outcome_conforms (h : lines[i]? = some text) :
    Conforms (InForce lines i) (i + 1) text (outcome lines i) := by
  have hforce : (fun name d => (tableAfter lines i).get? name = some d) = InForce lines i :=
    funext fun name => funext fun d => propext get?_tableAfter
  rw [outcome, h, ← hforce]
  exact readLine_conforms fun name d hd => (get?_tableAfter.mp hd).matched.2

/-- A reading of some lines that tells everything stands behind the first of them, and the
definitions on these are in force. -/
structure Stands (lines : List (List Char)) (l : TextLog) : Prop where
  source : l.source = lines
  line_le : l.line ≤ lines.length
  rest : l.rest = lines.drop l.line
  table : l.table = tableAfter lines l.line
  limit : l.limit = .trace

theorem stands_ofLines (lines : List (List Char)) : Stands lines (ofLines lines) where
  source := rfl
  line_le := Nat.zero_le _
  rest := rfl
  table := rfl
  limit := rfl

theorem Stands.rewind {l : TextLog} (h : Stands lines l) : Stands lines l.rewind where
  source := h.source
  line_le := Nat.zero_le _
  rest := h.source
  table := rfl
  limit := h.limit

/-- Behind its next line a reading stands with what that line teaches. -/
theorem Stands.step {l : TextLog} (h : Stands lines l) {rest : List (List Char)}
    (hrest : l.rest = text :: rest) : lines[l.line]? = some text ∧ ∀ told,
      Stands lines { l with
        line := l.line + 1, rest, told
        table := learn l.table (readLine l.table (l.line + 1) text) } := by
  have hdrop : lines.drop l.line = text :: rest := h.rest.symm.trans hrest
  have htext : lines[l.line]? = some text := by rw [← List.head?_drop, hdrop, List.head?_cons]
  have hlt := (List.getElem?_eq_some_iff.mp htext).1
  refine ⟨htext, fun told => {
    source := h.source
    line_le := hlt
    rest := ?_
    table := ?_
    limit := h.limit }⟩
  · rw [← List.tail_drop, hdrop, List.tail_cons]
  · rw [h.table, ← tableAfter_succ htext]

def givers (lines : List (List Char)) (start : Nat) : Set Nat :=
  { i | start ≤ i ∧ (outcome lines i).isSome }

theorem givers_succ {start : Nat} (h : outcome lines start = none) :
    givers lines start = givers lines (start + 1) := by
  ext i
  simp only [givers, Set.mem_ofPred_eq]
  refine ⟨fun ⟨hle, hsome⟩ => ⟨Nat.lt_of_le_of_ne hle ?_, hsome⟩,
    fun ⟨hle, hsome⟩ => ⟨Nat.le_of_succ_le hle, hsome⟩⟩
  rintro rfl
  rw [h] at hsome
  cases hsome

/-- What a pull comes to: the item of the first line that gives one, or the end behind all lines. -/
inductive Reaches (lines : List (List Char)) (start : Nat) (p : Pull TextLog Record) : Prop where
  | item {i : Nat} {item : Except LogError Record} :
      IsLeast (givers lines start) i → outcome lines i = some item → p.item = some item →
      p.next.line = i + 1 → Reaches lines start p
  | ended : givers lines start = ∅ → p.item = none → Reaches lines start p

theorem Stands.advance {l : TextLog} (h : Stands lines l) (heard : List Notice) :
    Stands lines (advance l heard l.rest).next ∧
      Reaches lines l.line (TextLog.advance l heard l.rest) := by
  -- On the lines that are left. A line that is passed gives nothing, so the first line that gives
  -- something is the same behind it.
  induction hrest : l.rest generalizing l heard with
  | nil =>
    have hend : lines.length ≤ l.line := List.drop_eq_nil_iff.mp (h.rest.symm.trans hrest)
    refine ⟨{ h with rest := hrest.symm.trans h.rest }, .ended ?_ rfl⟩
    refine Set.eq_empty_of_forall_notMem fun i ⟨hle, hsome⟩ => ?_
    rw [outcome, List.getElem?_eq_none (hend.trans hle)] at hsome
    cases hsome
  | cons text rest ih =>
    obtain ⟨htext, hstep⟩ := h.step hrest
    have houtcome : outcome lines l.line = given (readLine l.table (l.line + 1) text) := by
      rw [outcome, htext, h.table]
      rfl
    rcases advance_reading l heard text with
      ⟨hnone, told, heard', hpass⟩ | ⟨item, notices, hsome, hyield⟩
    · have hnext := hstep told
      rw [learn_of_given_none hnone] at hnext
      rw [hpass l.source rest, ← advance_rest { l with line := l.line + 1, told } rest]
      obtain ⟨hstands, hreaches⟩ := ih hnext heard' rfl
      refine ⟨hstands, ?_⟩
      have hgivers := givers_succ (houtcome.trans hnone)
      cases hreaches with
      | item hleast hitem hp hline => exact .item (hgivers ▸ hleast) hitem hp hline
      | ended hempty hp => exact .ended (hgivers ▸ hempty) hp
    · rw [hyield l.source rest]
      have hitem := houtcome.trans hsome
      have hleast : IsLeast (givers lines l.line) l.line :=
        ⟨⟨Nat.le_refl _, by simp [hitem]⟩, fun i hi => hi.1⟩
      exact ⟨hstep l.told, .item hleast hitem rfl rfl⟩

def perform (l : TextLog) : Cursor.Call → TextLog
  | .pull => l.pull.next
  | .rewind => l.rewind

theorem stands_foldl (lines : List (List Char)) (calls : List Cursor.Call) :
    Stands lines (calls.foldl perform (ofLines lines)) :=
  List.foldlRecOn calls perform (stands_ofLines lines) fun _ h call _ =>
    match call with
    | .pull => (h.advance []).1
    | .rewind => h.rewind

/-- Each line of a text log is skipped, gives a record or is refused as the grammar says, by the
definitions that are in force before it, and after any calls a pull yields what the next line gives
that gives something. The errors of a text log are of one kind. -/
theorem pull_by_grammar (lines : List (List Char)) (calls : List Cursor.Call) :
    let l := calls.foldl perform (ofLines lines)
    (∀ i text, lines[i]? = some text →
        Conforms (InForce lines i) (i + 1) text (outcome lines i)) ∧
      Reaches lines l.line l.pull ∧
      ∀ e, l.pull.item = some (.error e) → e.kind = .malformed := by
  intro l
  have hreaches : Reaches lines l.line l.pull := ((stands_foldl lines calls).advance []).2
  refine ⟨fun i text => outcome_conforms, hreaches, fun e he => ?_⟩
  cases hreaches with
  | ended _ hend =>
    rw [hend] at he
    cases he
  | @item i item _ houtcome hitem _ =>
    obtain rfl : item = .error e := Option.some.inj (hitem.symm.trans he)
    cases htext : lines[i]? with
    | none =>
      rw [outcome, htext] at houtcome
      cases houtcome
    | some text => exact (houtcome ▸ outcome_conforms htext).error_kind

/-- A name without a definition and a blank line are passed, and the next value is no number. -/
theorem pull_by_grammar_unreadable :
    let lines := ["FMT, 64, 4, P, B, A", "P, 7", "Q, 1", " ", "P, x"].map String.toList
    let l := [Cursor.Call.pull, .pull].foldl perform (ofLines lines)
    let e : LogError := .onLine 5 (.unreadable "x" 'B')
    lines[4]? = some "P, x".toList ∧ l.pull.item = some (.error e) ∧
      Conforms (InForce lines 4) 5 "P, x".toList (outcome lines 4) ∧
      Reaches lines 2 l.pull ∧ e.kind = .malformed := by
  intro lines l e
  have hline : l.line = 2 := by decide +kernel
  have hitem : l.pull.item = some (.error e) := Feed.eq_error_of_errors (by decide +kernel)
  obtain ⟨hconforms, hreaches, hkind⟩ := pull_by_grammar lines [.pull, .pull]
  exact ⟨rfl, hitem, hconforms 4 _ rfl, hline ▸ hreaches, hkind e hitem⟩

end Lines

end TextLog

end DataFlash
