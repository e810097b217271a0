import DataFlash.Proofs.Invariant
import DataFlash.Proofs.Messages

namespace DataFlash

inductive Trap where
  | overflow
  | outOfRange
  deriving DecidableEq, Repr

namespace Word

def add (a b : Nat) : Except Trap Nat :=
  if a + b < UInt64.size then .ok (a + b) else .error .overflow

def sub (a b : Nat) : Except Trap Nat :=
  if b ≤ a then .ok (a - b) else .error .overflow

theorem add_ok {a b : Nat} (h : a + b < 2 ^ 64) : add a b = .ok (a + b) := if_pos h

theorem sub_ok {a b : Nat} (h : b ≤ a) : sub a b = .ok (a - b) := if_pos h

end Word

def byteAt (data : List UInt8) (i : Nat) : Except Trap UInt8 :=
  match data[i]? with
  | some b => .ok b
  | none => .error .outOfRange

def slice (data : List UInt8) (start stop : Nat) : Except Trap (List UInt8) :=
  if start ≤ stop ∧ stop ≤ data.length then .ok ((data.drop start).take (stop - start))
  else .error .outOfRange

theorem byteAt_of_drop {data : List UInt8} {i : Nat} {b : UInt8} {rest : List UInt8}
    (h : data.drop i = b :: rest) : byteAt data i = .ok b := by
  have hb := congrArg List.head? h
  rw [List.head?_drop] at hb
  simp [byteAt, hb]

/-- A position in the data, the bytes skipped before it and the definitions in force. The data are
read by index, and sums of indices are words of 64 bits: one that leaves the word and an index that
leaves the data are traps. -/
structure Cursor where
  data : List UInt8
  offset : Nat
  skipped : Nat
  table : Table UInt8
  limit : Level := .trace

namespace Cursor

open BinaryLog (frame seek interpret skipNotice)

def ofBytes (bytes : List UInt8) : Cursor :=
  { data := bytes, offset := 0, skipped := 0, table := BinaryLog.initialTable }

def rewind (c : Cursor) : Cursor :=
  { c with offset := 0, skipped := 0, table := BinaryLog.initialTable }

/-- A turn of the search either goes on from another position or answers the call. -/
inductive Turn where
  | again (c : Cursor)
  | answer (p : Pull Cursor Record)

def pass (c : Cursor) : Except Trap Turn := do
  let offset ← Word.add c.offset 1
  let skipped ← Word.add c.skipped 1
  return .again { c with offset, skipped }

def message (c : Cursor) (typeId : UInt8) (d : Definition) : Except Trap Turn := do
  let stop ← Word.add c.offset d.length
  if c.data.length < stop then
    let present ← Word.sub c.data.length c.offset
    return .answer {
      item := none
      notices := Notice.upTo c.limit [.truncated d.name c.offset present d.length] ++
        Notice.upTo c.limit (skipNotice c.skipped c.data.length)
      next := { c with offset := c.data.length, skipped := 0 } }
  else
    let start ← Word.add c.offset headerSize
    let payload ← slice c.data start stop
    let (item, table, notices) := interpret c.table typeId d payload
    return .answer {
      item := some item
      notices := Notice.upTo c.limit (skipNotice c.skipped c.offset) ++
        Notice.upTo c.limit notices
      next := { c with offset := stop, skipped := 0, table } }

def turn (c : Cursor) : Except Trap Turn := do
  let headerEnd ← Word.add c.offset headerSize
  if c.data.length < headerEnd then
    return .answer {
      item := none
      notices := Notice.upTo c.limit (skipNotice c.skipped c.offset)
      next := { c with skipped := 0 } }
  else
    let third ← Word.add c.offset 2
    let typeId ← byteAt c.data third
    match c.table.get? typeId with
    | none => c.pass
    | some d =>
      let first ← byteAt c.data c.offset
      let next ← Word.add c.offset 1
      let second ← byteAt c.data next
      if [first, second] = LogKind.sync then c.message typeId d else c.pass

/-- A call returns when its turns end in an answer and none of them is trapped. -/
inductive Returns : Cursor → Pull Cursor Record → Prop where
  | answer {c : Cursor} {p : Pull Cursor Record} : c.turn = .ok (.answer p) → Returns c p
  | again {c c' : Cursor} {p : Pull Cursor Record} :
      c.turn = .ok (.again c') → Returns c' p → Returns c p

/-- The cursor of a reading inside its search, `skipped` bytes past its offset. -/
def within (l : BinaryLog) (skipped : Nat) : Cursor :=
  { data := l.source, offset := l.offset + skipped, skipped, table := l.table, limit := l.limit }

def ofLog (l : BinaryLog) : Cursor :=
  { data := l.source, offset := l.offset, skipped := 0, table := l.table, limit := l.limit }

def ofPull (p : Pull BinaryLog Record) : Pull Cursor Record :=
  { item := p.item, notices := p.notices, next := ofLog p.next }

variable {l : BinaryLog} {skipped : Nat} {rest : List UInt8}

theorem pass_within (hlen : l.source.length < 2 ^ 63) (hle : l.offset + skipped < l.source.length) :
    (within l skipped).pass = .ok (.again (within l (skipped + 1))) := by
  have ho : Word.add (l.offset + skipped) 1 = .ok (l.offset + skipped + 1) :=
    Word.add_ok (by omega)
  have hs : Word.add skipped 1 = .ok (skipped + 1) := Word.add_ok (by omega)
  simp only [pass, within, ho, hs, bind, Except.bind, pure, Except.pure]
  rfl

theorem message_within (hlen : l.source.length < 2 ^ 63)
    (hdrop : l.source.drop (l.offset + skipped) = rest)
    (hle : l.offset + skipped + rest.length = l.source.length)
    {typeId : UInt8} {d : Definition} (hs : d.Sound) {tail : List UInt8}
    (hd : l.table.get? typeId = some d) (hr : rest = LogKind.sync ++ typeId :: tail) :
    (within l skipped).message typeId d =
      .ok (.answer (ofPull (l.yield skipped rest (frame l.table rest)))) := by
  have hword := hs.word
  have hhead := hs.headerSize_le
  have hlenr : rest.length = headerSize + tail.length := by
    rw [hr]
    simp [LogKind.sync, headerSize]
    omega
  have hstop : Word.add (l.offset + skipped) d.length = .ok (l.offset + skipped + d.length) :=
    Word.add_ok (by omega)
  have hframe := BinaryLog.frame_header hd tail
  rw [← hr] at hframe
  by_cases hcut : l.source.length < l.offset + skipped + d.length
  · have hsub : Word.sub l.source.length (l.offset + skipped) = .ok rest.length := by
      rw [Word.sub_ok (by omega)]
      congr 1
      omega
    rw [if_neg (by omega)] at hframe
    simp only [message, within, hstop, hcut, hsub, if_true, bind, Except.bind, pure, Except.pure,
      hframe, BinaryLog.yield, ofPull, ofLog, hle]
  · have hstart : Word.add (l.offset + skipped) headerSize =
        .ok (l.offset + skipped + headerSize) := Word.add_ok (by omega)
    have hpayload : slice l.source (l.offset + skipped + headerSize)
        (l.offset + skipped + d.length) = .ok (tail.take (d.length - headerSize)) := by
      have htail : l.source.drop (l.offset + skipped + headerSize) = tail := by
        rw [← List.drop_drop, hdrop, hr]
        rfl
      rw [slice, if_pos (by omega), htail]
      congr 2
      omega
    have hroom : d.length - headerSize ≤ tail.length := by omega
    have hnext : l.offset + skipped + headerSize + (tail.take (d.length - headerSize)).length =
        l.offset + skipped + d.length := by
      rw [List.length_take_of_le hroom]
      omega
    rw [if_pos hroom] at hframe
    simp only [message, within, hstop, hcut, hstart, hpayload, if_false, bind, Except.bind, pure,
      Except.pure, hframe, BinaryLog.yield, ofPull, ofLog, hnext]

theorem turn_tail (hlen : l.source.length < 2 ^ 63)
    (hle : l.offset + skipped + rest.length = l.source.length) (hshort : rest.length < headerSize) :
    (within l skipped).turn =
      .ok (.answer (ofPull (l.yield skipped rest (frame l.table rest)))) := by
  have hend : Word.add (l.offset + skipped) headerSize = .ok (l.offset + skipped + headerSize) :=
    Word.add_ok (by unfold headerSize; omega)
  have hcut : l.source.length < l.offset + skipped + headerSize := by omega
  simp only [turn, within, hend, hcut, if_true, bind, Except.bind, pure, Except.pure,
    BinaryLog.frame_tail_of_length_lt l.table hshort, BinaryLog.yield, ofPull, ofLog]

/-- With a whole header left the turn is decided by its three bytes. -/
theorem turn_header (hlen : l.source.length < 2 ^ 63)
    (hdrop : l.source.drop (l.offset + skipped) = rest)
    (hle : l.offset + skipped + rest.length = l.source.length)
    {first second typeId : UInt8} {tail : List UInt8}
    (hr : rest = first :: second :: typeId :: tail) :
    (within l skipped).turn = match l.table.get? typeId with
      | none => (within l skipped).pass
      | some d => if [first, second] = LogKind.sync then (within l skipped).message typeId d
        else (within l skipped).pass := by
  have hlenr : rest.length = tail.length + 3 := by rw [hr]; rfl
  have h0 : byteAt l.source (l.offset + skipped) = .ok first := byteAt_of_drop (hdrop.trans hr)
  have h1 : byteAt l.source (l.offset + skipped + 1) = .ok second :=
    byteAt_of_drop (by rw [← List.drop_drop, hdrop, hr]; rfl)
  have h2 : byteAt l.source (l.offset + skipped + 2) = .ok typeId :=
    byteAt_of_drop (by rw [← List.drop_drop, hdrop, hr]; rfl)
  have hend : Word.add (l.offset + skipped) headerSize = .ok (l.offset + skipped + headerSize) :=
    Word.add_ok (by unfold headerSize; omega)
  have hsecond : Word.add (l.offset + skipped) 1 = .ok (l.offset + skipped + 1) :=
    Word.add_ok (by omega)
  have hthird : Word.add (l.offset + skipped) 2 = .ok (l.offset + skipped + 2) :=
    Word.add_ok (by omega)
  have hwhole : ¬ l.source.length < l.offset + skipped + headerSize := by
    unfold headerSize
    omega
  simp only [turn, within, hend, hwhole, hthird, h2, if_false, bind, Except.bind]
  cases l.table.get? typeId with
  | none => rfl
  | some d => simp only [h0, hsecond, h1]

theorem turn_noise (hlen : l.source.length < 2 ^ 63)
    (hdrop : l.source.drop (l.offset + skipped) = rest)
    (hle : l.offset + skipped + rest.length = l.source.length)
    (hnoise : frame l.table rest = .noise) :
    (within l skipped).turn = .ok (.again (within l (skipped + 1))) := by
  obtain ⟨hwhole, hnone⟩ := BinaryLog.frame_eq_noise.mp hnoise
  match rest, hwhole with
  | first :: second :: typeId :: tail, _ =>
    have hpass : (within l skipped).pass = .ok (.again (within l (skipped + 1))) :=
      pass_within hlen (by simp only [List.length_cons] at hle; omega)
    rw [turn_header hlen hdrop hle rfl]
    split
    · exact hpass
    · rename_i d hd
      split
      · rename_i hsync
        have := hnone typeId tail (by rw [← hsync]; rfl)
        simp [this] at hd
      · exact hpass

theorem turn_answer (hlen : l.source.length < 2 ^ 63) (ht : l.table.Sound)
    (hdrop : l.source.drop (l.offset + skipped) = rest)
    (hle : l.offset + skipped + rest.length = l.source.length)
    (hnoise : frame l.table rest ≠ .noise) :
    (within l skipped).turn =
      .ok (.answer (ofPull (l.yield skipped rest (frame l.table rest)))) := by
  by_cases hshort : rest.length < headerSize
  · exact turn_tail hlen hle hshort
  · obtain ⟨typeId, tail, d, hr, hd⟩ := BinaryLog.exists_header (by omega) hnoise
    rw [turn_header hlen hdrop hle hr, hd]
    exact message_within hlen hdrop hle (ht.entry typeId d hd).2 hd hr

/-- The search goes through the bytes that are left, and no turn of it is trapped. -/
theorem returns_within (hlen : l.source.length < 2 ^ 63) (ht : l.table.Sound)
    (hdrop : l.source.drop (l.offset + skipped) = rest)
    (hle : l.offset + skipped + rest.length = l.source.length) :
    (within l skipped).Returns (ofPull (l.yield (seek l.table skipped rest).1
      (seek l.table skipped rest).2.1 (seek l.table skipped rest).2.2)) := by
  -- Every turn of the search but the last passes one of the bytes that are left.
  induction rest generalizing skipped with
  | nil =>
    have hnil : frame l.table [] ≠ .noise := by simp [frame]
    exact .answer (turn_answer hlen ht hdrop hle hnil)
  | cons b rest ih =>
    by_cases hnoise : frame l.table (b :: rest) = .noise
    · rw [BinaryLog.seek_cons_noise hnoise]
      refine .again (turn_noise hlen hdrop hle hnoise) (ih ?_ ?_)
      · rw [← Nat.add_assoc, ← List.drop_drop, hdrop]
        rfl
      · rw [List.length_cons] at hle
        omega
    · rw [BinaryLog.seek_of_frame_ne_noise hnoise]
      exact .answer (turn_answer hlen ht hdrop hle hnoise)

theorem returns_pull (h : l.Coherent) (hlen : l.source.length < 2 ^ 63) :
    (ofLog l).Returns (ofPull l.pull) := by
  have hdrop : l.source.drop (l.offset + 0) = l.rest := h.rest.symm
  exact returns_within hlen h.table hdrop h.length_rest

inductive Call where
  | pull
  | rewind
  deriving DecidableEq, Repr

def perform (l : BinaryLog) : Call → BinaryLog
  | .pull => l.pull.next
  | .rewind => l.rewind

inductive Runs : Cursor → List Call → Cursor → Prop where
  | nil (c : Cursor) : Runs c [] c
  | pull {c c' : Cursor} {p : Pull Cursor Record} {calls : List Call} :
      c.Returns p → Runs p.next calls c' → Runs c (.pull :: calls) c'
  | rewind {c c' : Cursor} {calls : List Call} :
      Runs c.rewind calls c' → Runs c (.rewind :: calls) c'

theorem coherent_perform (h : l.Coherent) (call : Call) : (perform l call).Coherent := by
  cases call with
  | pull => exact h.pull
  | rewind => exact BinaryLog.Coherent.rewind l

theorem source_perform (l : BinaryLog) (call : Call) : (perform l call).source = l.source := by
  cases call with
  | pull => exact BinaryLog.source_pull l
  | rewind => rfl

theorem coherent_foldl (bytes : List UInt8) (calls : List Call) :
    (calls.foldl perform (BinaryLog.ofBytes bytes)).Coherent :=
  List.foldlRecOn calls perform (BinaryLog.coherent_ofBytes bytes) fun _ h call _ =>
    coherent_perform h call

/-- A run of the cursor follows the run of the log. -/
theorem runs_foldl (h : l.Coherent) (hlen : l.source.length < 2 ^ 63) (calls : List Call) :
    (ofLog l).Runs calls (ofLog (calls.foldl perform l)) ∧
      (calls.foldl perform l).Coherent ∧ (calls.foldl perform l).source = l.source := by
  induction calls generalizing l with
  | nil => exact ⟨.nil _, h, rfl⟩
  | cons call calls ih =>
    have hsource := source_perform l call
    obtain ⟨hruns, hcoherent, hs⟩ := ih (coherent_perform h call) (hsource ▸ hlen)
    refine ⟨?_, hcoherent, hs.trans hsource⟩
    cases call with
    | pull => exact .pull (returns_pull h hlen) hruns
    | rewind => exact .rewind hruns

structure Between (bytes : List UInt8) (c : Cursor) : Prop where
  data : c.data = bytes
  offset_le : c.offset ≤ bytes.length
  skipped : c.skipped = 0
  table : c.table.Sound

/-- Any calls on any data leave a cursor that is not trapped, stands between messages and answers
the next call as the log does. A framed message is decoded, so an error of the next call refuses
the definition just read. A list of bytes in memory is shorter than half the range of a word. -/
theorem runs_safe (bytes : List UInt8) (hlen : bytes.length < 2 ^ 63) (calls : List Call) :
    let l := calls.foldl perform (BinaryLog.ofBytes bytes)
    (ofBytes bytes).Runs calls (ofLog l) ∧
      (ofLog l).Between bytes ∧
      (ofLog l).Returns (ofPull l.pull) ∧
      (∀ start typeId d payload after,
        frame l.table (bytes.drop start) = .message typeId d payload after →
          start + d.length ≤ bytes.length ∧ start + d.length < 2 ^ 64 ∧
            ∃ fields, d.decode payload = .ok fields) ∧
      ∀ e, l.pull.item = some (.error e) → l.Refuses l.pull.next.offset e ∧ e.kind ≠ .io := by
  intro l
  obtain ⟨hruns, hcoherent, hsource⟩ := runs_foldl (BinaryLog.coherent_ofBytes bytes) hlen calls
  have hbytes : l.source = bytes := hsource
  refine ⟨hruns, ?_, ?_, ?_, ?_⟩
  · exact {
      data := hbytes
      offset_le := hbytes ▸ hcoherent.offset_le
      skipped := rfl
      table := hcoherent.table }
  · exact returns_pull hcoherent (hbytes ▸ hlen)
  · intro start typeId d payload after hf
    obtain ⟨fields, hd, -⟩ := BinaryLog.decode_framed hcoherent.table hf
    have hsize := BinaryLog.length_framed hcoherent.table hf
    have hb := congrArg List.length (BinaryLog.frame_message hf).1
    simp only [List.length_drop, List.length_append, List.length_cons, LogKind.sync,
      List.length_nil] at hb
    unfold headerSize at hsize
    exact ⟨by omega, by omega, fields, hd⟩
  · intro e he
    have hr := hcoherent.refuses_of_error he
    exact ⟨hr, hr.kind⟩

/-- A log that makes definitions one byte longer and then writes such a longer one, of a message
with a character that stands for no field type. -/
def widerDefinitions : List UInt8 :=
  Definition.message {
    typeId := 0x80
    length := 90
    name := "FMT"
    format := "BBnNZB"
    columns := ["Type", "Length", "Name", "Format", "Columns", "Mark"] } ++
  Definition.message {
    typeId := 0x81
    length := 4
    name := "BAD"
    format := "?"
    columns := ["X"] } ++
  [7]

theorem runs_safe_widerDefinitions :
    let l := [Call.pull, .rewind, .pull].foldl perform (BinaryLog.ofBytes widerDefinitions)
    l.pull.item = some (.error (.unknownCharacter '?' "BAD")) ∧
      (ofBytes widerDefinitions).Runs [.pull, .rewind, .pull] (ofLog l) ∧
      l.Refuses l.pull.next.offset (.unknownCharacter '?' "BAD") := by
  intro l
  have hlen : widerDefinitions.length < 2 ^ 63 := by decide +kernel
  have hitem : l.pull.item = some (.error (.unknownCharacter '?' "BAD")) := by
    with_unfolding_all rfl
  obtain ⟨hruns, -, -, -, hrefuses⟩ := runs_safe widerDefinitions hlen [.pull, .rewind, .pull]
  exact ⟨hitem, hruns, (hrefuses _ hitem).1⟩

end Cursor

end DataFlash
