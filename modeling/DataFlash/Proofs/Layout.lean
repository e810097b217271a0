import DataFlash.Proofs.Rewind
import DataFlash.Proofs.Spacing
import Mathlib.Data.List.Forall2

namespace DataFlash

namespace LogError

def atLine (line : Nat) : LogError → LogError
  | definitionTooShort _ values => definitionTooShort line values
  | definitionNumber _ raw => definitionNumber line raw
  | definitionType _ typeId => definitionType line typeId
  | onLine _ cause => onLine line cause
  | e => e

def words? : LogError → Option String
  | definitionTooShort _ values => some s!"FMT needs at least 5 fields, got {values}"
  | definitionNumber _ raw => some s!"bad FMT number '{raw}'"
  | definitionType _ typeId => some s!"FMT type {typeId} out of range"
  | onLine _ cause => some (cause.kind.heading ++ cause.detail)
  | _ => none

/-- Errors of one kind with the same message, but for the number of the line that it names. -/
def SameButLine (e e' : LogError) : Prop :=
  e'.kind = e.kind ∧ (e'.message = e.message ∨ ∃ (line other : Nat) (words : String),
    e.message = e.kind.heading ++ s!"Line {line}: " ++ words ∧
      e'.message = e.kind.heading ++ s!"Line {other}: " ++ words)

@[simp] theorem kind_atLine (line : Nat) (e : LogError) : (e.atLine line).kind = e.kind := by
  unfold atLine
  split <;> rfl

@[simp] theorem words?_atLine (line : Nat) (e : LogError) : (e.atLine line).words? = e.words? := by
  unfold atLine
  split <;> rfl

@[simp] theorem atLine_atLine (line other : Nat) (e : LogError) :
    (e.atLine other).atLine line = e.atLine line := by
  cases e <;> rfl

theorem atLine_eq_self {e : LogError} (h : e.words? = none) (line : Nat) : e.atLine line = e := by
  unfold words? at h
  unfold atLine
  split <;> first | rfl | cases h

theorem detail_of_words? {e : LogError} {words : String} (h : e.words? = some words) :
    ∃ line : Nat, e.detail = s!"Line {line}: " ++ words := by
  -- The colon and the space stand in one literal with the words behind them.
  have hjoin {colon front : String} (hcolon : colon = ": " ++ front) (line : Nat) (back : String) :
      "Line " ++ toString line ++ colon ++ back = s!"Line {line}: " ++ (front ++ back) := by
    change _ = "Line " ++ toString line ++ ": " ++ (front ++ back)
    simp only [hcolon, String.append_assoc]
  have hjoin₂ {colon front : String} (hcolon : colon = ": " ++ front) (line : Nat)
      (middle back : String) : "Line " ++ toString line ++ colon ++ middle ++ back =
        s!"Line {line}: " ++ (front ++ middle ++ back) := by
    rw [hjoin hcolon, String.append_assoc]
  unfold words? at h
  split at h
  · next line values =>
    cases h
    exact ⟨line, hjoin (by decide) line _⟩
  · next line raw =>
    cases h
    exact ⟨line, hjoin₂ (by decide) line raw _⟩
  · next line typeId =>
    cases h
    exact ⟨line, hjoin₂ (by decide) line _ _⟩
  · next line cause =>
    cases h
    exact ⟨line, String.append_assoc⟩
  · cases h

theorem sameButLine_of_atLine {e e' : LogError} {line : Nat} (h : e.atLine line = e'.atLine line) :
    e.SameButLine e' := by
  have hkind : e'.kind = e.kind := by rw [← kind_atLine line e', ← h, kind_atLine]
  have hwords : e'.words? = e.words? := by rw [← words?_atLine line e', ← h, words?_atLine]
  refine ⟨hkind, ?_⟩
  cases he : e.words? with
  | none =>
    rw [he] at hwords
    rw [atLine_eq_self he, atLine_eq_self hwords] at h
    exact .inl (by rw [h])
  | some words =>
    obtain ⟨n, hn⟩ := detail_of_words? he
    obtain ⟨n', hn'⟩ := detail_of_words? (hwords.trans he)
    refine .inr ⟨n, n', words, ?_, ?_⟩
    · rw [message, hn, ← String.append_assoc]
    · rw [message, hn', hkind, ← String.append_assoc]

end LogError

theorem Definition.ofParts_atLine (line : Nat) (typeId : UInt8) (length : Nat)
    (name format columns : String) :
    (Definition.ofParts typeId length name format columns).mapError (LogError.atLine line) =
      Definition.ofParts typeId length name format columns := by
  unfold Definition.ofParts
  dsimp only
  split
  · rfl
  · split <;> rfl

namespace TextLog

theorem definitionNumber_line (line other : Nat) (raw : String) :
    (definitionNumber line raw).mapError (LogError.atLine other) = definitionNumber other raw := by
  unfold definitionNumber
  split <;> rfl

/-- The number of a line shows in the error that refuses it only. -/
theorem readDefinition_line (line other : Nat) (values : List String) :
    (readDefinition line values).mapError (LogError.atLine other) =
      readDefinition other values := by
  have hbind {α β : Type} (x : Except LogError α) (f : α → Except LogError β) :
      (x >>= f).mapError (LogError.atLine other) =
        x.mapError (LogError.atLine other) >>= fun a => (f a).mapError (LogError.atLine other) := by
    cases x <;> rfl
  match values with
  | [] | [_] | [_, _] | [_, _, _] | [_, _, _, _] => rfl
  | type :: length :: name :: format :: column :: more =>
    simp only [readDefinition, hbind, definitionNumber_line]
    refine bind_congr fun typeId => bind_congr fun length => ?_
    split
    · rfl
    · rw [hbind, Definition.ofParts_atLine]
      rfl

/-- The definitions behind a line and what it gives, its error as on a line 0. -/
def yields (table : Table String) : LineReading → Table String × List (Except LogError Record)
  | .blank | .passedOver .. => (table, [])
  | .defines d r => (table.insert d.name d, [.ok r])
  | .data r => (table, [.ok r])
  | .refused e => (table, [.error (e.atLine 0)])

theorem yields_eq (table : Table String) (reading : LineReading) :
    yields table reading = (learn table reading,
      (given reading).toList.map (Except.mapError (LogError.atLine 0))) := by
  cases reading <;> rfl

theorem yields_readData (table : Table String) (d : Definition) (line other : Nat) (name : String)
    (values : List String) :
    yields table (readData d line name values) = yields table (readData d other name values) := by
  unfold readData
  split
  · rfl
  · split <;> rfl

theorem yields_readLine (table : Table String) (line : Nat) (text : List Char) :
    yields table (readLine table line text) = yields table (readLine table 0 text) := by
  unfold readLine
  split
  · rfl
  · rfl
  · dsimp only
    split
    · next more _ _ _ =>
      rw [← readDefinition_line line 0]
      cases readDefinition line (more.map String.ofList) with
      | ok found => rfl
      | error e => simp [yields, Except.mapError]
    · split
      · rfl
      · exact yields_readData ..

def unnumbered (table : Table String) : List (List Char) → List (Except LogError Record)
  | [] => []
  | text :: rest =>
    let given := yields table (readLine table 0 text)
    given.2 ++ unnumbered given.1 rest

theorem unnumbered_filter (table : Table String) (lines : List (List Char)) :
    unnumbered table (lines.filter fun line => Text.parts line ≠ [[]]) =
      unnumbered table lines := by
  induction lines generalizing table with
  | nil => rfl
  | cons text rest ih =>
    by_cases hblank : Text.parts text = [[]]
    · rw [List.filter_cons_of_neg (by simpa using hblank), ih, unnumbered,
        readLine_blank (Text.parts_eq_blank.mp hblank)]
      rfl
    · rw [List.filter_cons_of_pos (by simpa using hblank), unnumbered, unnumbered, ih]

theorem unnumbered_map_parts {lines lines' : List (List Char)}
    (h : lines'.map Text.parts = lines.map Text.parts) (table : Table String) :
    unnumbered table lines' = unnumbered table lines := by
  induction lines generalizing lines' table with
  | nil =>
    rw [List.map_nil, List.map_eq_nil_iff] at h
    rw [h]
  | cons text rest ih =>
    obtain ⟨text', rest', rfl, hparts, hrest⟩ := List.map_eq_cons_iff.mp h
    rw [unnumbered, unnumbered, readLine_congr hparts, ih hrest]

theorem unnumbered_contents {lines lines' : List (List Char)}
    (h : Text.contents lines' = Text.contents lines) (table : Table String) :
    unnumbered table lines' = unnumbered table lines := by
  rw [← unnumbered_filter table lines', ← unnumbered_filter table lines]
  exact unnumbered_map_parts h table

theorem results_line {l : TextLog} {text : List Char} {rest : List (List Char)}
    (h : l.rest = text :: rest) :
    let given := yields l.table (readLine l.table (l.line + 1) text)
    (Feed.results l).map (Except.mapError (LogError.atLine 0)) = given.2 ++
      (Feed.results { l with line := l.line + 1, rest, table := given.1 }).map
        (Except.mapError (LogError.atLine 0)) := by
  dsimp only
  rw [results_cons h, List.map_append, yields_eq]

/-- The results of a text log are what its lines give. -/
theorem results_unnumbered (l : TextLog) :
    (Feed.results l).map (Except.mapError (LogError.atLine 0)) = unnumbered l.table l.rest := by
  -- On the lines that are left; a line gives the same whatever its number is.
  induction hrest : l.rest generalizing l with
  | nil =>
    have hitem : (Feed.pull l).item = none := by
      change (advance l [] l.rest).item = none
      rw [hrest]
      rfl
    rw [Feed.results_none hitem]
    rfl
  | cons text rest ih =>
    rw [results_line hrest, ih _ rfl, unnumbered, yields_readLine]

/-- Results with the same record, or with errors that differ in the number of a line only. -/
def Agree : Except LogError Record → Except LogError Record → Prop
  | .ok r, .ok r' => r' = r
  | .error e, .error e' => e.SameButLine e'
  | _, _ => False

theorem agree_of_mapError {item item' : Except LogError Record} {line : Nat}
    (h : item.mapError (LogError.atLine line) = item'.mapError (LogError.atLine line)) :
    Agree item item' := by
  cases item <;> cases item'
  · exact LogError.sameButLine_of_atLine (Except.error.inj h)
  · cases h
  · cases h
  · exact (Except.ok.inj h).symm

/-- A text log of another layout gives the same records, and the same errors but for the numbers of
their lines. -/
theorem results_respaced {text text' : List Char} (h : Relation.EqvGen Text.Respaced text text') :
    List.Forall₂ Agree (Feed.results (ofLines (Text.lines text)))
      (Feed.results (ofLines (Text.lines text'))) := by
  have hcontents : Text.contents (Text.lines text') = Text.contents (Text.lines text) := by
    rw [Text.contents_lines, Text.contents_lines, Text.contentsOf_respaced h]
  have hsame :
      (Feed.results (ofLines (Text.lines text))).map (Except.mapError (LogError.atLine 0)) =
        (Feed.results (ofLines (Text.lines text'))).map (Except.mapError (LogError.atLine 0)) := by
    rw [results_unnumbered, results_unnumbered]
    exact (unnumbered_contents hcontents {}).symm
  rw [← List.forall₂_eq_eq_eq, List.forall₂_map_left_iff, List.forall₂_map_right_iff] at hsame
  exact hsame.imp fun _ _ => agree_of_mapError

/-- The line whose value is no number is the third of one text and the fourth of the other. The line
before it ends with a carriage return in both, and in the other text with white space before
that. -/
theorem results_respaced_nextLine :
    let text := "FMT,64,4,P,B,A\nP,7\r\nP,x\n".toList
    let text' := "FMT,64,4,P,B, A\n\t\nP\u00A0,7 \r\nP,x\r\n".toList
    Relation.EqvGen Text.Respaced text text' ∧
      (Feed.results (ofLines (Text.lines text))).length = 3 ∧
      List.Forall₂ Agree (Feed.results (ofLines (Text.lines text)))
        (Feed.results (ofLines (Text.lines text'))) := by
  intro text text'
  have hcomma : Text.Respaced text "FMT,64,4,P,B, A\nP,7\r\nP,x\n".toList :=
    .afterComma "FMT,64,4,P,B".toList "A\nP,7\r\nP,x\n".toList rfl
  have hline : Text.Respaced "FMT,64,4,P,B, A\nP,7\r\nP,x\n".toList
      "FMT,64,4,P,B, A\n\t\nP,7\r\nP,x\n".toList :=
    @Text.Respaced.blankLine "FMT,64,4,P,B, A\n".toList ['\t'] "P,7\r\nP,x\n".toList
      (by simp [Text.EndsLine]) (List.forall_mem_singleton.mpr rfl)
  have hspace : Text.Respaced "FMT,64,4,P,B, A\n\t\nP,7\r\nP,x\n".toList
      "FMT,64,4,P,B, A\n\t\nP\u00A0,7\r\nP,x\n".toList :=
    .beforeComma "FMT,64,4,P,B, A\n\t\nP".toList "7\r\nP,x\n".toList rfl
  have hend : Text.Respaced "FMT,64,4,P,B, A\n\t\nP\u00A0,7\r\nP,x\n".toList
      "FMT,64,4,P,B, A\n\t\nP\u00A0,7 \r\nP,x\n".toList :=
    @Text.Respaced.lineEnd ['\r'] "\nP,x\n".toList ' ' "FMT,64,4,P,B, A\n\t\nP\u00A0,7".toList
      (List.forall_mem_singleton.mpr rfl) (by simp) rfl
  have hreturn : Text.Respaced "FMT,64,4,P,B, A\n\t\nP\u00A0,7 \r\nP,x\n".toList text' :=
    .carriageReturn "FMT,64,4,P,B, A\n\t\nP\u00A0,7 \r\nP,x".toList []
  have hsteps : Relation.ReflTransGen Text.Respaced text text' :=
    ((((Relation.ReflTransGen.single hcomma).tail hline).tail hspace).tail hend).tail hreturn
  have hrespaced : Relation.EqvGen Text.Respaced text text' :=
    Relation.EqvGen.reflTransGen_le_eqvGen _ _ _ hsteps
  refine ⟨hrespaced, ?_, results_respaced hrespaced⟩
  rw [← List.length_map (Except.mapError (LogError.atLine 0)), results_unnumbered]
  decide +kernel

end TextLog

end DataFlash
