import DataFlash.Proofs.Changes
import DataFlash.Proofs.Lines
import DataFlash.Proofs.Masks
import DataFlash.Proofs.Timestamp

namespace DataFlash

namespace BitNames

def numbered? (name : List Char) : Option Nat := do
  let rest ← "UNKNOWN_BIT[".toList.isPrefixOf? name
  let digits ← "]".toList.isSuffixOf? rest
  let bit ← Numeral.natural? digits
  if bit < flagBits then some bit else none

def bit? (names : BitNames) (name : List Char) : Option Nat :=
  ((List.range flagBits).find? fun bit => names.name? bit = some (String.ofList name)).or
    (numbered? name)

/-- Names from which the bits can be read, without blanks and line feeds. -/
structure Legible (names : BitNames) : Prop where
  bit : ∀ bit < flagBits, names.bit? (names.resolve bit).toList = some bit
  word : ∀ bit < flagBits, ∀ c ∈ (names.resolve bit).toList, c ≠ ' ' ∧ c ≠ '\n'

theorem legible_powerStatus : powerStatus.Legible where
  bit := by decide +kernel
  word := by
    have hall : (List.range flagBits).all (fun bit =>
        (powerStatus.resolve bit).toList.all fun c => c != ' ' && c != '\n') = true := by
      decide +kernel
    simpa using hall

end BitNames

namespace Report

/-- What follows the first colon that has a blank behind it, after that blank. -/
def afterColon? : List Char → Option (List Char)
  | [] => none
  | c :: rest =>
    if c = ':' ∧ rest.head? = some ' ' then some rest.tail else afterColon? rest

def readChange? (names : BitNames) : List Char → Option BitChange
  | '+' :: name => (names.bit? name).map .set
  | '-' :: name => (names.bit? name).map .cleared
  | _ => none

def readDiff? (names : BitNames) (text : List Char) : Option (List BitChange) :=
  match text.splitOn ' ' with
  | [] :: words => words.mapM (readChange? names)
  | _ => none

def readLine? (names : BitNames) (line : List Char) : Option (List BitChange) :=
  (afterColon? line).bind (readDiff? names)

/-- The masks that lines lead to, one after another. -/
def readMasks? (names : BitNames) (mask : UInt32) : List (List Char) → Option (List UInt32)
  | [] => some []
  | line :: rest => do
    let changes ← readLine? names line
    let mask ← changes.foldlM BitChange.applied? mask
    let masks ← readMasks? names mask rest
    some (mask :: masks)

section Words

variable {names : BitNames}

def changeWord (names : BitNames) : BitChange → List Char
  | .set bit => '+' :: (names.resolve bit).toList
  | .cleared bit => '-' :: (names.resolve bit).toList

theorem toList_diffText (names : BitNames) (d : FlagDiff) :
    (diffText names d).toList = d.changes.flatMap fun change => ' ' :: changeWord names change := by
  have hword : ∀ change, (changeText names change).toList = ' ' :: changeWord names change := by
    intro change
    cases change <;> simp [changeText, changeWord]
  simp [diffText, String.toList_join, List.flatMap_map, hword]

/-- Words that stand each after a blank are found between the blanks. -/
theorem splitOn_flatMap {words : List (List Char)} (h : ∀ word ∈ words, ' ' ∉ word)
    {front : List Char} (hfront : ' ' ∉ front) :
    (front ++ words.flatMap (' ' :: ·)).splitOn ' ' = front :: words := by
  induction words generalizing front with
  | nil => simpa using List.splitOn_eq_singleton hfront
  | cons word words ih =>
    rw [List.forall_mem_cons] at h
    rw [List.flatMap_cons, List.cons_append, List.splitOn_append_cons_self_of_not_mem hfront,
      ih h.2 h.1]

variable {names : BitNames}

theorem readChange?_changeWord (h : names.Legible) {change : BitChange}
    (hbit : change.bit < flagBits) : readChange? names (changeWord names change) = some change := by
  have hread := h.bit change.bit hbit
  cases change <;> simpa [readChange?, changeWord, BitChange.bit] using hread

theorem blank_notMem_changeWord (h : names.Legible) {change : BitChange}
    (hbit : change.bit < flagBits) : ' ' ∉ changeWord names change := by
  have hword := h.word change.bit hbit
  cases change <;> simpa [changeWord, BitChange.bit] using fun hmem => (hword ' ' hmem).1 rfl

theorem mapM_readChange? (h : names.Legible) {changes : List BitChange}
    (hbits : ∀ change ∈ changes, change.bit < flagBits) :
    (changes.map (changeWord names)).mapM (readChange? names) = some changes := by
  induction changes with
  | nil => rfl
  | cons change changes ih =>
    rw [List.forall_mem_cons] at hbits
    simp [readChange?_changeWord h hbits.1, ih hbits.2]

theorem readDiff?_diffText (h : names.Legible) (d : FlagDiff) :
    readDiff? names (diffText names d).toList = some d.changes := by
  have hbits : ∀ change ∈ d.changes, change.bit < flagBits :=
    fun _ => FlagDiff.bit_lt_of_mem_changes
  have hwords : ∀ word ∈ d.changes.map (changeWord names), ' ' ∉ word := by
    simpa using fun change hmem => blank_notMem_changeWord h (hbits change hmem)
  have hfront : ' ' ∉ ([] : List Char) := List.not_mem_nil
  have hsplit := splitOn_flatMap hwords hfront
  rw [List.nil_append, List.flatMap_map] at hsplit
  rw [readDiff?, toList_diffText, hsplit]
  exact mapM_readChange? h hbits

theorem feed_notMem_diffText (h : names.Legible) (d : FlagDiff) :
    '\n' ∉ (diffText names d).toList := by
  rw [toList_diffText, List.mem_flatMap]
  rintro ⟨change, hchange, hmem⟩
  have hword := h.word change.bit (FlagDiff.bit_lt_of_mem_changes hchange)
  cases change <;>
    simpa [changeWord] using (hword '\n' (by simpa [changeWord, BitChange.bit] using hmem)).2

theorem afterColon?_append {front : List Char} (h : ':' ∉ front) (rest : List Char) :
    afterColon? (front ++ rest) = afterColon? rest := by
  induction front with
  | nil => rfl
  | cons c front ih =>
    simp only [List.mem_cons, not_or] at h
    rw [List.cons_append, afterColon?, if_neg (fun hc => h.1 hc.1.symm), ih h.2]

theorem afterColon?_digits (width n : Nat) (rest : List Char) :
    afterColon? (':' :: paddedDigits width n ++ rest) = afterColon? rest := by
  have hcolon : ':' ∉ paddedDigits width n := notMem_paddedDigits rfl width n
  have hblank : ' ' ∉ paddedDigits width n := notMem_paddedDigits rfl width n
  obtain ⟨c, more, hdigits⟩ := List.exists_cons_of_ne_nil (paddedDigits_ne_nil width n)
  have hhead : (paddedDigits width n ++ rest).head? ≠ some ' ' := by
    rw [hdigits] at hblank ⊢
    simpa using fun hc => hblank (by simp [hc])
  rw [List.cons_append, afterColon?, if_neg (fun hc => hhead hc.2), afterColon?_append hcolon]

/-- A line is read behind its time. -/
theorem afterColon?_line (time : Float) (diff : String) :
    afterColon? (line time diff).toList = some diff.toList := by
  have hend : afterColon? (['.'] ++ paddedDigits 2 (Timestamp.hundredths time) ++
      ':' :: ' ' :: diff.toList) = some diff.toList := by
    rw [afterColon?_append (by simpa using notMem_paddedDigits rfl 2 _)]
    rfl
  have htext : (line time diff).toList = Timestamp.secondText (Timestamp.second time) ++
      (['.'] ++ paddedDigits 2 (Timestamp.hundredths time) ++ ':' :: ' ' :: diff.toList) := by
    simp [line, Timestamp.text]
  rw [htext, Timestamp.secondText]
  split
  · obtain ⟨front, minute, second, hfront, hdate⟩ :=
      Timestamp.exists_dateText_eq (Timestamp.second time)
    rw [hdate, List.append_assoc, List.append_assoc, afterColon?_append hfront,
      afterColon?_digits, afterColon?_digits, hend]
  · rw [afterColon?_append (Numeral.notMem_toString_int rfl (by decide) _), hend]

theorem readLine?_changeLine (h : names.Legible) (mask : UInt32) (status : PowerStatus) :
    readLine? names (changeLine names mask status).toList =
      some (FlagDiff.changes { previous := mask, current := status.flags }) := by
  rw [readLine?, changeLine, afterColon?_line, Option.bind_some, readDiff?_diffText h]

theorem feed_notMem_changeLine (h : names.Legible) (mask : UInt32) (status : PowerStatus) :
    '\n' ∉ (changeLine names mask status).toList := by
  simpa [changeLine, line, feed_notMem_diffText h] using Timestamp.feed_notMem_text status.time

theorem feed_notMem_changeLines (h : names.Legible) {mask : UInt32} {statuses : List PowerStatus} :
    ∀ text ∈ changeLines names mask statuses, '\n' ∉ text.toList := by
  intro text hmem
  obtain ⟨⟨previous, status⟩, -, hline⟩ := List.mem_filterMap.mp hmem
  have htext : changeLine names previous status = text :=
    Option.some.inj (Option.ite_none_left_eq_some.mp hline).2
  rw [← htext]
  exact feed_notMem_changeLine h previous status

/-- The masks that differ from the one before, which for the first is `mask`. -/
def changedMasks (mask : UInt32) (masks : List UInt32) : List UInt32 :=
  ((mask :: masks).zip masks).filterMap fun (previous, current) =>
    if previous = current then none else some current

theorem length_changeLines (names : BitNames) (mask : UInt32) (statuses : List PowerStatus) :
    (changeLines names mask statuses).length =
      (changedMasks mask (statuses.map PowerStatus.flags)).length := by
  induction statuses generalizing mask with
  | nil => rfl
  | cons status rest ih =>
    by_cases hmask : mask = status.flags
    · rw [changeLines_same names hmask, ih]
      simp [changedMasks, hmask]
    · rw [changeLines_changed names hmask, List.length_cons, ih]
      simp [changedMasks, hmask]

theorem readMasks?_changeLines (h : names.Legible) (mask : UInt32) (statuses : List PowerStatus) :
    readMasks? names mask ((changeLines names mask statuses).map String.toList) =
      some (changedMasks mask (statuses.map PowerStatus.flags)) := by
  induction statuses generalizing mask with
  | nil => rfl
  | cons status rest ih =>
    by_cases hmask : mask = status.flags
    · subst hmask
      rw [changeLines_same names rfl, ih]
      simp [changedMasks]
    · have happly := FlagDiff.foldlM_changes { previous := mask, current := status.flags }
      dsimp only at happly
      rw [changeLines_changed names hmask, List.map_cons, readMasks?, readLine?_changeLine h]
      simp [happly, ih, changedMasks, hmask]

theorem lines_written {lines : List String} (h : ∀ line ∈ lines, '\n' ∉ line.toList) :
    Text.lines (written lines).toList = lines.map String.toList := by
  induction lines with
  | nil => rfl
  | cons line lines ih =>
    rw [List.forall_mem_cons] at h
    have htext :
        (written (line :: lines)).toList = line.toList ++ '\n' :: (written lines).toList := by
      simp [written_cons]
    rw [htext, Text.lines_append h.1, ih h.2, List.map_cons]

end Words

/-- With room for everything a report counts how often the mask changes and has one line for each
change. Read back, the lines lead to the masks after the changes: where a line sets a bit the bit
was clear, and where it clears one the bit was set. -/
theorem report_readable {σ : Type} {run : Run σ PowerStatus} {statuses : List PowerStatus}
    (h : run.items = statuses.map .ok) :
    let report := changes BitNames.powerStatus run {}
    let masks := changedMasks 0 (statuses.map PowerStatus.flags)
    let lines := Text.lines (Utf8.decode report.sink.bytes)
    report.result = .ok masks.length ∧ lines.length = masks.length ∧
      report.sink.bytes = Utf8.encode (String.ofList (lines.flatMap (· ++ ['\n']))) ∧
      readMasks? BitNames.powerStatus 0 lines = some masks := by
  intro report masks lines
  have hlegible := BitNames.legible_powerStatus
  have hroom : ({} : Sink).room = none := rfl
  obtain ⟨hbytes, hresult⟩ := changes_unlimited BitNames.powerStatus run hroom
  rw [h, Feed.leading_map_ok] at hbytes
  rw [h, Feed.leading_map_ok, Feed.errors_map_ok, length_changeLines] at hresult
  set texts := changeLines BitNames.powerStatus 0 statuses
  replace hbytes : report.sink.bytes = Utf8.encode (written texts) := hbytes
  have htext : Utf8.decode report.sink.bytes = (written texts).toList := by
    rw [hbytes, Utf8.decode_encode]
  have hlines : lines = texts.map String.toList := by
    rw [← lines_written (feed_notMem_changeLines hlegible), ← htext]
  have hlength : lines.length = masks.length := by
    rw [hlines, List.length_map, length_changeLines]
  refine ⟨hresult, hlength, ?_, ?_⟩
  · have hwritten : String.ofList (lines.flatMap (· ++ ['\n'])) = written texts := by
      rw [← String.ofList_toList (s := written texts)]
      simp [hlines, written, String.toList_join, List.flatMap_map]
    rw [hwritten, hbytes]
  · rw [hlines]
    exact readMasks?_changeLines hlegible 0 statuses

theorem report_readable_highBit :
    let statuses : List PowerStatus := [{ flags := 0, time := 0 }, { flags := 5, time := -0.25 },
      { flags := 5, time := 1 }, { flags := 0x80000041, time := 1e300 },
      { flags := 0, time := 0 / 0 }]
    let run : Run Unit PowerStatus :=
      { steps := statuses.map fun status => ([], .ok status), closing := [], final := () }
    let report := changes BitNames.powerStatus run {}
    report.result = .ok 3 ∧ readMasks? BitNames.powerStatus 0
      (Text.lines (Utf8.decode report.sink.bytes)) = some [5, 0x80000041, 0] := by
  intro statuses run report
  have hitems : run.items = statuses.map .ok := rfl
  obtain ⟨hresult, -, -, hmasks⟩ := report_readable hitems
  exact ⟨hresult, hmasks⟩

end Report

end DataFlash
