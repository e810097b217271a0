import DataFlash.Proofs.Framing

namespace DataFlash

/-- Definitions are found under their own type ids, and the one of definitions is always there. -/
structure Table.Sound (table : Table UInt8) : Prop where
  defining : (table.get? Definition.defining.typeId).isSome
  entry : ∀ typeId d, table.get? typeId = some d → d.typeId = typeId ∧ d.Sound

namespace BinaryLog

variable {table : Table UInt8}

theorem get?_initialTable (typeId : UInt8) : initialTable.get? typeId =
    if typeId = Definition.defining.typeId then some Definition.defining else none := by
  by_cases h : typeId = Definition.defining.typeId
  · simp [initialTable, Table.get?, h]
  · have hb : (typeId == Definition.defining.typeId) = false := by simpa using h
    simp [initialTable, Table.get?, List.lookup_cons, hb, h]

theorem sound_initialTable : initialTable.Sound where
  defining := by decide
  entry typeId d h := by
    rw [get?_initialTable] at h
    split at h
    · cases h
      exact ⟨Eq.symm ‹_›, Definition.sound_defining⟩
    · cases h

theorem sound_insert (h : table.Sound) {d : Definition} (hd : d.Sound) :
    (table.insert d.typeId d).Sound where
  defining := by
    rw [Table.get?_insert]
    split
    · rfl
    · exact h.defining
  entry typeId other ho := by
    rw [Table.get?_insert] at ho
    split at ho
    · cases ho
      exact ⟨Eq.symm ‹_›, hd⟩
    · exact h.entry typeId other ho

theorem interpret_data {typeId : UInt8} {d : Definition} {payload : List UInt8}
    {fields : List (String × Value)} (hf : d.decode payload = .ok fields)
    (ht : typeId ≠ Definition.defining.typeId) :
    interpret table typeId d payload = (.ok { name := d.name, fields }, table, []) := by
  simp [interpret, hf, ht]

theorem interpret_learned {typeId : UInt8} {d learned : Definition} {payload : List UInt8}
    {fields : List (String × Value)} (hf : d.decode payload = .ok fields)
    (ht : typeId = Definition.defining.typeId)
    (hl : Definition.ofRecord { name := d.name, fields } = .ok learned) :
    interpret table typeId d payload = (.ok { name := d.name, fields },
      table.insert learned.typeId learned, [.learned learned]) := by
  simp [interpret, hf, ht, hl]

theorem interpret_refused {typeId : UInt8} {d : Definition} {payload : List UInt8}
    {fields : List (String × Value)} {e : LogError} (hf : d.decode payload = .ok fields)
    (ht : typeId = Definition.defining.typeId)
    (he : Definition.ofRecord { name := d.name, fields } = .error e) :
    interpret table typeId d payload = (.error e, table, []) := by
  simp [interpret, hf, ht, he]

theorem interpret_ok {typeId : UInt8} {d : Definition} {payload : List UInt8}
    {fields : List (String × Value)} (hf : d.decode payload = .ok fields) {r : Record}
    (h : (interpret table typeId d payload).1 = .ok r) : r = { name := d.name, fields } := by
  by_cases ht : typeId = Definition.defining.typeId
  · cases hr : Definition.ofRecord { name := d.name, fields } with
    | ok learned =>
      rw [interpret_learned hf ht hr] at h
      exact (Except.ok.inj h).symm
    | error e =>
      rw [interpret_refused hf ht hr] at h
      cases h
  · rw [interpret_data hf ht] at h
    exact (Except.ok.inj h).symm

/-- Learning keeps the table sound, also when the definition of definitions is learned anew. -/
theorem sound_interpret (h : table.Sound) (typeId : UInt8) (d : Definition)
    (payload : List UInt8) : (interpret table typeId d payload).2.1.Sound := by
  unfold interpret
  split
  · exact h
  · dsimp only
    split
    · split
      · exact h
      · exact sound_insert h (Definition.sound_of_ofRecord ‹_›)
    · exact h

theorem decode_framed (h : table.Sound) {bytes payload after : List UInt8} {typeId : UInt8}
    {d : Definition} (hf : frame table bytes = .message typeId d payload after) :
    ∃ fields, d.decode payload = .ok fields ∧ fields.map (·.1) = d.columns := by
  obtain ⟨-, hd, hlen⟩ := frame_message hf
  have hs := (h.entry typeId d hd).2
  exact hs.decode_ok (hs.payloadSize_le hlen)

theorem length_framed (h : table.Sound) {bytes payload after : List UInt8} {typeId : UInt8}
    {d : Definition} (hf : frame table bytes = .message typeId d payload after) :
    headerSize + payload.length = d.length := by
  obtain ⟨-, hd, hlen⟩ := frame_message hf
  have hs := (h.entry typeId d hd).2.headerSize_le
  omega

/-- An error is the refusal of the definition that was just decoded. -/
theorem interpret_error (h : table.Sound) {bytes payload after : List UInt8} {typeId : UInt8}
    {d : Definition} (hf : frame table bytes = .message typeId d payload after) {e : LogError}
    (he : (interpret table typeId d payload).1 = .error e) :
    typeId = Definition.defining.typeId ∧ ∃ fields, d.decode payload = .ok fields ∧
      Definition.ofRecord { name := d.name, fields } = .error e := by
  obtain ⟨fields, hd, -⟩ := decode_framed h hf
  by_cases ht : typeId = Definition.defining.typeId
  · refine ⟨ht, fields, hd, ?_⟩
    cases hr : Definition.ofRecord { name := d.name, fields } with
    | error e' =>
      rw [interpret_refused hd ht hr] at he
      cases he
      rfl
    | ok learned =>
      rw [interpret_learned hd ht hr] at he
      cases he
  · rw [interpret_data hd ht] at he
    cases he

structure Coherent (l : BinaryLog) : Prop where
  offset_le : l.offset ≤ l.source.length
  rest : l.rest = l.source.drop l.offset
  table : l.table.Sound

theorem coherent_ofBytes (bytes : List UInt8) (limit : Level := .trace) :
    (ofBytes bytes limit).Coherent where
  offset_le := Nat.zero_le _
  rest := rfl
  table := sound_initialTable

theorem Coherent.length_rest {l : BinaryLog} (h : l.Coherent) :
    l.offset + l.rest.length = l.source.length := by
  have hle := h.offset_le
  rw [h.rest, List.length_drop]
  omega

theorem Coherent.drop_add {l : BinaryLog} (h : l.Coherent) {front back : List UInt8}
    (hr : l.rest = front ++ back) :
    l.offset + front.length ≤ l.source.length ∧
      l.source.drop (l.offset + front.length) = back := by
  have hlen := h.length_rest
  rw [hr, List.length_append] at hlen
  refine ⟨by omega, ?_⟩
  rw [← List.drop_drop, ← h.rest, hr, List.drop_left]

@[simp] theorem source_yield (l : BinaryLog) (skipped : Nat) (rest : List UInt8)
    (framing : Framing) : (l.yield skipped rest framing).next.source = l.source := by
  cases framing <;> rfl

@[simp] theorem source_pull (l : BinaryLog) : l.pull.next.source = l.source := by
  simp [pull]

@[simp] theorem limit_yield (l : BinaryLog) (skipped : Nat) (rest : List UInt8)
    (framing : Framing) : (l.yield skipped rest framing).next.limit = l.limit := by
  cases framing <;> rfl

@[simp] theorem limit_pull (l : BinaryLog) : l.pull.next.limit = l.limit := by
  simp [pull]

theorem Coherent.pull {l : BinaryLog} (h : l.Coherent) : l.pull.next.Coherent := by
  obtain ⟨noise, rest, hr, -, hs⟩ := seek_spec l.table 0 l.rest
  obtain ⟨hle, hdrop⟩ := h.drop_add hr
  rw [pull_eq hs, Nat.zero_add]
  cases hf : frame l.table rest with
  | tail => exact { offset_le := hle, rest := hdrop.symm, table := h.table }
  | noise => exact { offset_le := hle, rest := hdrop.symm, table := h.table }
  | cut d =>
    have hlen := h.length_rest
    rw [hr, List.length_append] at hlen
    refine { offset_le := ?_, rest := ?_, table := h.table }
    · simp only [yield]
      omega
    · simp only [yield]
      rw [List.drop_eq_nil_of_le (by omega)]
  | message typeId d payload after =>
    have hb := (frame_message hf).1
    have hm : l.rest = (noise ++ (LogKind.sync ++ typeId :: payload)) ++ after := by
      rw [hr, hb]
      simp
    have hn : l.offset + (noise ++ (LogKind.sync ++ typeId :: payload)).length =
        l.offset + noise.length + headerSize + payload.length := by
      simp [LogKind.sync, headerSize]
      omega
    obtain ⟨hle', hdrop'⟩ := h.drop_add hm
    rw [hn] at hle' hdrop'
    exact {
      offset_le := hle'
      rest := hdrop'.symm
      table := sound_interpret h.table typeId d payload }

/-- An error that refuses a definition: the message that ends at `stop` is decoded by the definition
of definitions in force, and its record defines nothing. -/
def Refuses (l : BinaryLog) (stop : Nat) (e : LogError) : Prop :=
  ∃ front payload d fields,
    l.source.take stop = front ++ (LogKind.sync ++ Definition.defining.typeId :: payload) ∧
      l.offset ≤ front.length ∧
      l.table.get? Definition.defining.typeId = some d ∧
      headerSize + payload.length = d.length ∧
      d.decode payload = .ok fields ∧
      Definition.ofRecord { name := d.name, fields } = .error e

theorem Refuses.kind {l : BinaryLog} {stop : Nat} {e : LogError} (h : l.Refuses stop e) :
    e.kind ≠ .io := by
  obtain ⟨_, _, _, _, -, -, -, -, -, he⟩ := h
  exact Definition.ofRecord_error_kind he

theorem Coherent.refuses_of_error {l : BinaryLog} (h : l.Coherent) {e : LogError}
    (he : l.pull.item = some (.error e)) : l.Refuses l.pull.next.offset e := by
  obtain ⟨noise, rest, hr, -, hs⟩ := seek_spec l.table 0 l.rest
  rw [pull_eq hs, Nat.zero_add] at he ⊢
  cases hf : frame l.table rest with
  | tail => simp [hf, yield] at he
  | noise => simp [hf, yield] at he
  | cut d => simp [hf, yield] at he
  | message typeId d payload after =>
    simp only [hf, yield, Option.some.injEq] at he ⊢
    obtain ⟨hb, hd, -⟩ := frame_message hf
    obtain ⟨rfl, fields, hdecode, hrefused⟩ := interpret_error h.table hf he
    have hfront : (l.source.take l.offset).length = l.offset := List.length_take_of_le h.offset_le
    refine ⟨l.source.take l.offset ++ noise, payload, d, fields, ?_, ?_, hd,
      length_framed h.table hf, hdecode, hrefused⟩
    · have hprefix : l.source.take l.offset ++ noise ++
          (LogKind.sync ++ Definition.defining.typeId :: payload) <+: l.source := by
        refine ⟨after, ?_⟩
        conv_rhs => rw [← List.take_append_drop l.offset l.source, ← h.rest, hr, hb]
        simp
      have hn : l.offset + noise.length + headerSize + payload.length =
          (l.source.take l.offset ++ noise ++
            (LogKind.sync ++ Definition.defining.typeId :: payload)).length := by
        simp only [List.length_append, List.length_cons, hfront, LogKind.sync, headerSize,
          List.length_nil]
        omega
      rw [hn]
      exact (List.prefix_iff_eq_take.mp hprefix).symm
    · rw [List.length_append, hfront]
      omega

theorem Coherent.rewind (l : BinaryLog) : l.rewind.Coherent := coherent_ofBytes l.source l.limit

end BinaryLog

end DataFlash
