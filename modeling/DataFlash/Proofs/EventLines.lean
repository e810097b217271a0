import DataFlash.Log.Text
import DataFlash.Proofs.Events
import DataFlash.Proofs.Feed
import DataFlash.Proofs.TextLine
import Mathlib.Data.List.Find

namespace DataFlash

namespace TextLog

variable {table : Table String} {line : Nat} {text : List Char}

theorem values_of_parts {values : List String}
    (h : Text.parts text = values.map String.toList) : TextLog.values text = values := by
  simp [TextLog.values, h]

theorem readLine_defines {values : List String} {d : Definition} {r : Record}
    (hparts : Text.parts text = ("FMT" :: values).map String.toList)
    (hd : readDefinition line values = .ok (d, r)) : readLine table line text = .defines d r := by
  have hvalues := values_of_parts hparts
  rw [readLine_eq hvalues (trim_ne_nil hvalues), if_pos rfl, hd]

theorem readLine_named {name : String} {values : List String} {d : Definition} (hne : name ≠ "")
    (hfmt : name ≠ "FMT") (hparts : Text.parts text = (name :: values).map String.toList)
    (hd : table.get? name = some d) :
    readLine table line text = readData d line name values := by
  have hblank : Text.trim text ≠ [] := by
    intro hblank
    rw [Text.parts_eq_blank.mpr hblank] at hparts
    simp [hne] at hparts
  rw [readLine_eq (values_of_parts hparts) hblank, if_neg hfmt, hd]

/-- The line of a definition defines it, in whatever parts its columns come. -/
theorem readDefinition_spelled {d : Definition} (h : d.Plain) {columns : List String}
    (hne : columns ≠ []) (hjoined : ",".intercalate columns = d.joined) :
    readDefinition line ([(Value.uint (UInt64.ofNat d.typeId.toNat)).display,
        (Value.uint (UInt64.ofNat d.length)).display, d.name, d.format] ++ columns) =
      .ok (d, (Event.definition d).record) := by
  have htypeId : d.typeId.toNat < 256 := d.typeId.toNat_lt
  have hbyte := h.byte
  cases columns with
  | nil => exact absurd rfl hne
  | cons column more =>
    have hnumber : ∀ n, definitionNumber line (Value.uint (UInt64.ofNat n)).display =
        .ok (UInt64.ofNat n) := by
      intro n
      simp only [definitionNumber, Value.display, Numeral.unsigned?_toString]
    have ht : (UInt64.ofNat d.typeId.toNat).toNat = d.typeId.toNat :=
      UInt64.toNat_ofNat_of_lt' (by unfold UInt64.size; omega)
    have hl : (UInt64.ofNat d.length).toNat = d.length :=
      UInt64.toNat_ofNat_of_lt' (by unfold UInt64.size; omega)
    have hbyteId : (UInt64.ofNat d.typeId.toNat).toUInt8 = d.typeId := by simp
    simp only [List.cons_append, List.nil_append, readDefinition, hnumber, hjoined, bind,
      Except.bind, ht, hl, hbyteId, h.ofParts_joined, pure, Except.pure]
    rw [if_neg (by omega)]
    rfl

theorem readData_display {d : Definition} {values : List Value}
    (hcolumns : d.columns.length = d.format.toList.length)
    (hfits : List.Forall₂ Fits d.format.toList values) (name : String) :
    readData d line name (values.map Value.display) =
      .data { name, fields := d.columns.zip values } := by
  have hlen : (values.map Value.display).length = d.columns.length := by
    rw [List.length_map, hcolumns, hfits.length_eq]
  have hparse : d.parse (values.map Value.display) = .ok (d.columns.zip values) := by
    simp [Definition.parse, hlen, Definition.parseFields_display hfits]
  simp [readData, hlen, hparse]

end TextLog

namespace Event

/-- The definitions of events are plain, and two of them with one type id have one name. -/
structure Known (earlier : List Definition) : Prop where
  plain : ∀ d ∈ earlier, d.Plain
  paired : ∀ d ∈ earlier, ∀ e ∈ earlier, d.typeId = e.typeId ↔ d.name = e.name

variable {earlier : List Definition} {e : Event}

theorem known_nil : Known [] where
  plain := by simp
  paired := by simp

theorem Known.append (hk : Known earlier) (h : e.Fits earlier) : Known (e.defined ++ earlier) := by
  cases e with
  | data d values padding => exact hk
  | definition d =>
    obtain ⟨hplain, hpair⟩ := h
    refine { plain := ?_, paired := ?_ }
    · simpa [defined] using ⟨hplain, hk.plain⟩
    · intro d₁ h₁ d₂ h₂
      rcases List.mem_cons.mp h₁ with heq₁ | hmem₁ <;> rcases List.mem_cons.mp h₂ with heq₂ | hmem₂
      · simp [heq₁, heq₂]
      · rw [heq₁, eq_comm, hpair d₂ hmem₂, eq_comm]
      · rw [heq₂, hpair d₁ hmem₁]
      · exact hk.paired d₁ hmem₁ d₂ hmem₂

/-- The newest definition of a type is the newest of its name. -/
theorem Known.find?_name (hk : Known earlier) {d : Definition}
    (h : (earlier.find? fun e => e.typeId == d.typeId) = some d) :
    (earlier.find? fun e => e.name == d.name) = some d := by
  have hmem := List.mem_of_find?_eq_some h
  -- Among the definitions so far the same ones have the name and the type.
  rw [← h]
  apply List.find?_congr
  intro e he
  rw [Bool.eq_iff_iff]
  simpa using (hk.paired e he d hmem).symm

theorem toList_line (e : Event) : e.line.toList =
    [',', ' '].intercalate ((e.layout.name :: e.values.map Value.display).map String.toList) := by
  rw [line, String.toList_intercalate]
  rfl

theorem parts_line_definition {d : Definition} (h : d.Plain) :
    Text.parts (definition d).line.toList =
      ("FMT" :: ([(Value.uint (UInt64.ofNat d.typeId.toNat)).display,
        (Value.uint (UInt64.ofNat d.length)).display, d.name, d.format] ++
        if d.columns = [] then [""] else d.columns)).map String.toList := by
  have hclean : ∀ t ∈ ["FMT", (Value.uint (UInt64.ofNat d.typeId.toNat)).display,
      (Value.uint (UInt64.ofNat d.length)).display, d.name, d.format].map String.toList,
      Text.Clean t := by
    have hfmt : Text.Clean "FMT".toList := by decide
    simpa using ⟨hfmt, Numeral.clean_toString_nat _, Numeral.clean_toString_nat _, h.name.2.2,
      h.clean_format⟩
  have hcolumns : ∀ t ∈ d.columns.map String.toList, Text.Clean t := by
    simpa using fun c hc => (h.column c hc).2.2
  -- The columns stand behind the other parts with commas of their own.
  have hjoined : Text.parts d.joined.toList =
      (if d.columns = [] then [""] else d.columns).map String.toList := by
    rw [Definition.joined, String.toList_intercalate]
    apply (Text.parts_intercalate hcolumns).trans
    by_cases hnil : d.columns = []
    · simp [hnil]
    · simp [hnil]
  have hparts := Text.parts_intercalate_append hclean d.joined.toList
  rw [hjoined] at hparts
  rw [toList_line]
  exact hparts

theorem parts_line_data {d : Definition} (hname : Text.Clean d.name.toList) {values : List Value}
    (hvalues : ∀ v ∈ values, Text.Clean v.display.toList) (padding : List UInt8) :
    Text.parts (data d values padding).line.toList =
      (d.name :: values.map Value.display).map String.toList := by
  rw [toList_line]
  refine Text.parts_intercalate_clean ?_ (by simp)
  simpa [layout, Event.values] using ⟨hname, hvalues⟩

theorem feed_notMem_line (hk : Known earlier) (h : e.Fits earlier) : '\n' ∉ e.line.toList := by
  rw [toList_line]
  apply Text.notMem_intercalate (by decide)
  cases e with
  | definition d =>
    have hplain := h.1
    have hjoined : '\n' ∉ d.joined.toList := by
      rw [Definition.joined, String.toList_intercalate]
      apply Text.notMem_intercalate (by decide)
      simpa using fun c hc => (hplain.column c hc).2.2.feed
    have hname : '\n' ∉ Definition.defining.name.toList := by decide
    simpa [layout, Event.values, Definition.spelled] using ⟨hname,
      (Numeral.clean_toString_nat _).feed, (Numeral.clean_toString_nat _).feed,
      hplain.name.2.2.feed, hplain.clean_format.feed, hjoined⟩
  | data d values padding =>
    have hname := (hk.plain d (List.mem_of_find?_eq_some h.1)).name.2.2
    have hvalues := Definition.clean_display_of_fits h.2.1 h.2.2.1
    simpa [layout, Event.values] using ⟨hname.feed, fun v hv => (hvalues v hv).feed⟩

theorem lines_textLog {events : List Event} (hk : Known earlier) (h : Legal earlier events) :
    Text.lines (Utf8.decode (textLog events)) = events.map fun e => e.line.toList := by
  rw [textLog, Utf8.decode_encode]
  induction events generalizing earlier with
  | nil => rfl
  | cons e more ih =>
    have hline : (String.join ((e :: more).map fun e => e.line ++ "\n")).toList =
        e.line.toList ++ '\n' :: (String.join (more.map fun e => e.line ++ "\n")).toList := by
      simp
    rw [hline, Text.lines_append (feed_notMem_line hk h.1), ih (hk.append h.1) h.2, List.map_cons]

structure Learned (earlier : List Definition) (l : TextLog) : Prop where
  known : Known earlier
  table : ∀ name, l.table.get? name = earlier.find? fun d => d.name == name

variable {l : TextLog}

theorem readLine_definition (table : Table String) {d : Definition} (h : d.Plain) (line : Nat) :
    TextLog.readLine table line (definition d).line.toList =
      .defines d (definition d).record := by
  have hne : (if d.columns = [] then [""] else d.columns) ≠ [] := by
    split <;> simp_all
  have hjoined : ",".intercalate (if d.columns = [] then [""] else d.columns) = d.joined := by
    split <;> simp_all [Definition.joined]
  exact TextLog.readLine_defines (parts_line_definition h)
    (TextLog.readDefinition_spelled h hne hjoined)

theorem Learned.readLine_data (h : Learned earlier l) {d : Definition} {values : List Value}
    {padding : List UInt8} (hfits : (data d values padding).Fits earlier) (line : Nat) :
    TextLog.readLine l.table line (data d values padding).line.toList =
      .data (data d values padding).record := by
  obtain ⟨hfind, hvalues, hclean, -⟩ := hfits
  have hplain := h.known.plain d (List.mem_of_find?_eq_some hfind)
  have hget : l.table.get? d.name = some d := (h.table d.name).trans (h.known.find?_name hfind)
  have hparts := parts_line_data hplain.name.2.2
    (Definition.clean_display_of_fits hvalues hclean) padding
  rw [TextLog.readLine_named hplain.name_ne_nil hplain.name_ne hparts hget]
  exact TextLog.readData_display hplain.columns hvalues d.name

/-- One pull takes the line of one event. -/
theorem Learned.pull (h : Learned earlier l) (hfits : e.Fits earlier) {rest : List (List Char)}
    (hrest : l.rest = e.line.toList :: rest) :
    l.pull.item = some (.ok e.record) ∧ l.pull.next.rest = rest ∧
      Learned (e.defined ++ earlier) l.pull.next := by
  have hknown := h.known.append hfits
  unfold TextLog.pull
  rw [hrest]
  unfold TextLog.advance
  cases e with
  | definition d =>
    simp only [readLine_definition l.table hfits.1]
    refine ⟨trivial, trivial, hknown, ?_⟩
    intro name
    rw [Table.get?_insert, h.table]
    by_cases hname : name = d.name
    · simp [defined, hname]
    · have hb : (d.name == name) = false := by simpa using Ne.symm hname
      simp [defined, hname, hb]
  | data d values padding =>
    simp only [h.readLine_data hfits]
    exact ⟨trivial, trivial, hknown, h.table⟩

theorem Learned.results {events : List Event} (h : Learned earlier l)
    (hlegal : Legal earlier events) (hrest : l.rest = events.map fun e => e.line.toList) :
    Feed.results l = events.map (Except.ok ∘ record) := by
  induction events generalizing earlier l with
  | nil =>
    have hnone : (Feed.pull l).item = none := by
      simp only [Feed.pull, TextLog.pull, hrest]
      rfl
    exact Feed.results_none hnone
  | cons e more ih =>
    obtain ⟨hitem, hafter, hnext⟩ := h.pull hlegal.1 hrest
    exact (Feed.results_some hitem).trans (congrArg _ (ih hnext hlegal.2 hafter))

theorem results_textLog {events : List Event} (h : Legal [] events) :
    Feed.results (TextLog.ofBytes (textLog events)) = events.map (Except.ok ∘ record) := by
  have hlearned : Learned [] (TextLog.ofBytes (textLog events)) := {
    known := known_nil
    table := fun _ => rfl }
  exact hlearned.results h (lines_textLog known_nil h)

end Event

end DataFlash
