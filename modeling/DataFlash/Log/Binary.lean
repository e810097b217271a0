import DataFlash.Feed
import DataFlash.Table

namespace DataFlash

/-- A binary log and how far it is read: `rest` starts at `offset` of `source`. A message is two
sync bytes, a type id and a payload as long as the definition of that type says. Of what reading
gives notice of, only what passes the limit is told. -/
structure BinaryLog where
  source : List UInt8
  offset : Nat
  rest : List UInt8
  table : Table UInt8
  limit : Level := .trace

inductive Framing where
  /-- Fewer bytes than a header are left. -/
  | tail
  /-- No message starts here. -/
  | noise
  /-- The data end inside the message that starts here. -/
  | cut (d : Definition)
  | message (typeId : UInt8) (d : Definition) (payload after : List UInt8)

namespace BinaryLog

def initialTable : Table UInt8 :=
  { entries := [(Definition.defining.typeId, Definition.defining)] }

def ofBytes (bytes : List UInt8) (limit : Level := .trace) : BinaryLog :=
  { source := bytes, offset := 0, rest := bytes, table := initialTable, limit }

/-- The same log from its start, with nothing learned. -/
def rewind (l : BinaryLog) : BinaryLog :=
  { l with offset := 0, rest := l.source, table := initialTable }

def frame (table : Table UInt8) : List UInt8 → Framing
  | first :: second :: typeId :: rest =>
    if [first, second] = LogKind.sync then
      match table.get? typeId with
      | none => .noise
      | some d =>
        match Bytes.split? (d.length - headerSize) rest with
        | none => .cut d
        | some (payload, after) => .message typeId d payload after
    else .noise
  | _ => .tail

/-- The first position at which something other than noise starts: how many bytes lie before it,
the bytes from there on and what starts there. -/
def seek (table : Table UInt8) (skipped : Nat) : List UInt8 → Nat × List UInt8 × Framing
  | [] => (skipped, [], .tail)
  | b :: rest =>
    match frame table (b :: rest) with
    | .noise => seek table (skipped + 1) rest
    | framing => (skipped, b :: rest, framing)

def skipNotice (skipped before : Nat) : List Notice :=
  if skipped = 0 then [] else [.skipped skipped before]

/-- What a message tells, the table after it and the notice of what was learned. A definition
that is refused leaves the table as it was. -/
def interpret (table : Table UInt8) (typeId : UInt8) (d : Definition) (payload : List UInt8) :
    Except LogError Record × Table UInt8 × List Notice :=
  match d.decode payload with
  | .error e => (.error e, table, [])
  | .ok fields =>
    let record : Record := { name := d.name, fields }
    if typeId = Definition.defining.typeId then
      match Definition.ofRecord record with
      | .error e => (.error e, table, [])
      | .ok learned => (.ok record, table.insert learned.typeId learned, [.learned learned])
    else (.ok record, table, [])

/-- What is yielded where `skipped` bytes were passed over and `rest` is left, by what starts
there. After a message that is cut short nothing is left, and the bytes passed over are told with
the end of the data. -/
def yield (l : BinaryLog) (skipped : Nat) (rest : List UInt8) : Framing → Pull BinaryLog Record
  | .message typeId d payload after =>
    let offset := l.offset + skipped
    let (item, table, notices) := interpret l.table typeId d payload
    { item := some item
      notices := Notice.upTo l.limit (skipNotice skipped offset) ++ Notice.upTo l.limit notices
      next := { l with offset := offset + headerSize + payload.length, rest := after, table } }
  | .cut d =>
    let offset := l.offset + skipped
    let size := offset + rest.length
    { item := none
      notices := Notice.upTo l.limit [.truncated d.name offset rest.length d.length] ++
        Notice.upTo l.limit (skipNotice skipped size)
      next := { l with offset := size, rest := [] } }
  | .tail | .noise =>
    { item := none
      notices := Notice.upTo l.limit (skipNotice skipped (l.offset + skipped))
      next := { l with offset := l.offset + skipped, rest } }

def pull (l : BinaryLog) : Pull BinaryLog Record :=
  let (skipped, rest, framing) := seek l.table 0 l.rest
  l.yield skipped rest framing

/-- A message takes its header and its payload from the front of the data. -/
theorem frame_message {table : Table UInt8} {bytes payload after : List UInt8} {typeId : UInt8}
    {d : Definition} (h : frame table bytes = .message typeId d payload after) :
    bytes = LogKind.sync ++ typeId :: payload ++ after ∧ table.get? typeId = some d ∧
      payload.length = d.length - headerSize := by
  unfold frame at h
  split at h
  · split at h
    · rename_i hs
      split at h
      · simp at h
      · rename_i d' hd
        split at h
        · simp at h
        · rename_i p a hp
          obtain ⟨hrest, hlen⟩ := Bytes.split?_eq_some hp
          simp only [Framing.message.injEq] at h
          obtain ⟨rfl, rfl, rfl, rfl⟩ := h
          refine ⟨?_, hd, hlen⟩
          rw [← hs, hrest]
          rfl
    · simp at h
  · simp at h

theorem seek_framing (table : Table UInt8) (skipped : Nat) (bytes : List UInt8) :
    (seek table skipped bytes).2.2 = frame table (seek table skipped bytes).2.1 ∧
      (seek table skipped bytes).2.1.length ≤ bytes.length := by
  induction bytes generalizing skipped with
  | nil => simp [seek, frame]
  | cons b rest ih =>
    unfold seek
    split
    · exact ⟨(ih (skipped + 1)).1, Nat.le_succ_of_le (ih (skipped + 1)).2⟩
    · exact ⟨rfl, Nat.le_refl _⟩

/-- What is yielded takes at least its header from the bytes that are left. -/
theorem length_pull_add_le (l : BinaryLog) (h : l.pull.item.isSome) :
    l.pull.next.rest.length + headerSize ≤ l.rest.length := by
  obtain ⟨hf, hl⟩ := seek_framing l.table 0 l.rest
  unfold pull at h ⊢
  generalize seek l.table 0 l.rest = found at *
  obtain ⟨skipped, rest, framing⟩ := found
  cases framing with
  | message typeId d payload after =>
    have hb := (frame_message hf.symm).1
    simp only at hl hb
    simp only [yield, headerSize]
    simp [hb, LogKind.sync] at hl
    omega
  | cut d => simp [yield] at h
  | tail => simp [yield] at h
  | noise => simp [yield] at h

theorem length_pull_lt (l : BinaryLog) (h : l.pull.item.isSome) :
    l.pull.next.rest.length < l.rest.length :=
  Nat.lt_of_lt_of_le (Nat.lt_add_of_pos_right (by decide)) (length_pull_add_le l h)

instance : Feed BinaryLog Record where
  pull := pull
  remaining l := l.rest.length
  remaining_lt := length_pull_lt

end BinaryLog

end DataFlash
