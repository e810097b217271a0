import DataFlash.Proofs.Regions
import Mathlib.Order.Bounds.Basic

namespace DataFlash.BinaryLog

/-- The next message of a reading: it stands at the first header and is as long as the definition of
its type says. -/
structure Next (l : BinaryLog) (start : Nat) (typeId : UInt8) (d : Definition)
    (payload : List UInt8) : Prop where
  first : IsLeast { offset ∈ headers l.table l.source | l.offset ≤ offset } start
  bytes : LogKind.sync ++ typeId :: payload <+: l.source.drop start
  defined : l.table.get? typeId = some d
  length : headerSize + payload.length = d.length

variable {l : BinaryLog} {start : Nat} {typeId : UInt8} {d : Definition} {payload : List UInt8}

theorem Next.unique (hn : l.Next start typeId d payload) {start' : Nat} {typeId' : UInt8}
    {d' : Definition} {payload' : List UInt8} (hn' : l.Next start' typeId' d' payload') :
    start' = start ∧ typeId' = typeId ∧ d' = d ∧ payload' = payload := by
  obtain rfl := hn'.first.unique hn.first
  obtain ⟨after, hafter⟩ := hn.bytes
  obtain ⟨after', hafter'⟩ := hn'.bytes
  have hsame := hafter'.trans hafter.symm
  rw [List.append_assoc, List.append_assoc, List.append_cancel_left_eq, List.cons_append,
    List.cons_append, List.cons.injEq] at hsame
  obtain ⟨rfl, hrest⟩ := hsame
  obtain rfl := Option.some.inj (hn'.defined.symm.trans hn.defined)
  have hlen : payload'.length = payload.length :=
    Nat.add_left_cancel (hn'.length.trans hn.length.symm)
  exact ⟨rfl, rfl, rfl, (List.append_inj hrest hlen).1⟩

/-- What a pull passes over ends where the next message starts. -/
theorem Passes.start_eq {noise rest : List UInt8} (h : l.Passes noise rest)
    (hn : l.Next start typeId d payload) : start = l.offset + noise.length := by
  have hlen : headerSize ≤ rest.length := by
    by_contra hshort
    have hbefore := h.lt_of_mem_headers (Nat.lt_of_not_le hshort) hn.first.1.1
    exact Nat.not_le_of_lt hbefore hn.first.1.2
  obtain ⟨typeId', after, d', hrest, hd'⟩ := exists_header hlen h.stop
  exact hn.first.unique (h.isLeast_header hrest hd')

/-- A pull yields what the next message tells and stands behind it. -/
theorem Coherent.pull_next (h : l.Coherent) (hn : l.Next start typeId d payload) :
    l.pull.item = some (interpret l.table typeId d payload).1 ∧
      l.pull.next = { l with
        offset := start + d.length
        rest := l.source.drop (start + d.length)
        table := (interpret l.table typeId d payload).2.1 } := by
  obtain ⟨noise, rest, hp⟩ := h.passes
  have hstart := hp.start_eq hn
  obtain ⟨after, hafter⟩ := hn.bytes
  have hrest : rest = LogKind.sync ++ typeId :: payload ++ after := by
    rw [hafter, hstart, hp.behind]
  have hlen : payload.length + headerSize = d.length := (Nat.add_comm ..).trans hn.length
  have hframe : frame l.table rest = .message typeId d payload after :=
    hrest ▸ frame_message_written hn.defined hlen after
  have hdrop : l.source.drop (start + d.length) = after := by
    rw [← List.drop_drop, ← hafter, List.drop_left']
    simp only [LogKind.sync, List.length_append, List.length_cons, List.length_nil, ← hlen,
      headerSize]
    omega
  rw [hp.pull, hframe]
  refine ⟨rfl, ?_⟩
  rw [hdrop, hstart, ← hn.length, ← Nat.add_assoc]
  rfl

theorem Coherent.payloadSize_le (h : l.Coherent) (hn : l.Next start typeId d payload) :
    d.payloadSize ≤ payload.length := by
  have hlen := hn.length
  exact (h.table.entry typeId d hn.defined).2.payloadSize_le (by omega)

theorem Coherent.decode_next (h : l.Coherent) (hn : l.Next start typeId d payload) :
    ∃ fields, d.decode payload = .ok fields ∧ fields.map (·.1) = d.columns :=
  (h.table.entry typeId d hn.defined).2.decode_ok (h.payloadSize_le hn)

theorem Coherent.exists_next (h : l.Coherent) {item : Except LogError Record}
    (hitem : l.pull.item = some item) :
    ∃ start typeId d payload, l.Next start typeId d payload := by
  obtain ⟨r, _, hrest, -, -, hyields⟩ := h.region hitem
  obtain ⟨typeId, d, payload, hmessage, hd, hlen, -⟩ := hyields.message
  rw [Region.bytes, List.append_assoc] at hrest
  refine ⟨_, typeId, d, payload, hyields.first, ?_, hd, ?_⟩
  · rw [(h.drop_add hrest).2, hmessage]
    exact List.prefix_append ..
  · rw [← hlen, hmessage]
    simp only [LogKind.sync, List.length_append, List.length_cons, List.length_nil, headerSize]
    omega

theorem Coherent.item_data (h : l.Coherent) (hn : l.Next start typeId d payload)
    (hdata : typeId ≠ Definition.defining.typeId) : ∃ fields, d.decode payload = .ok fields ∧
      l.pull.item = some (.ok { name := d.name, fields }) := by
  obtain ⟨fields, hdecode, -⟩ := h.decode_next hn
  refine ⟨fields, hdecode, ?_⟩
  rw [(h.pull_next hn).1, interpret_data hdecode hdata]

/-- A message that defines another is an error if its record is refused. -/
theorem Coherent.item_definition (h : l.Coherent)
    (hn : l.Next start Definition.defining.typeId d payload) {fields : List (String × Value)}
    (hdecode : d.decode payload = .ok fields) (e : LogError) :
    l.pull.item = some (.error e) ↔ Definition.ofRecord { name := d.name, fields } = .error e := by
  rw [(h.pull_next hn).1]
  cases hrecord : Definition.ofRecord { name := d.name, fields } with
  | error e' =>
    rw [interpret_refused hdecode rfl hrecord]
    simp
  | ok learned =>
    rw [interpret_learned hdecode rfl hrecord]
    simp

theorem Coherent.next_of_error (h : l.Coherent)
    (hd : l.table.get? Definition.defining.typeId = some d) {e : LogError}
    (he : l.pull.item = some (.error e)) :
    ∃ start payload, l.Next start Definition.defining.typeId d payload := by
  obtain ⟨start, typeId, d', payload, hn⟩ := h.exists_next he
  by_cases htype : typeId = Definition.defining.typeId
  · subst htype
    obtain rfl := Option.some.inj (hn.defined.symm.trans hd)
    exact ⟨start, payload, hn⟩
  · obtain ⟨fields, -, hitem⟩ := h.item_data hn htype
    rw [he] at hitem
    cases hitem

theorem Coherent.table_of_ended (h : l.Coherent) (hitem : l.pull.item = none) :
    l.pull.next.table = l.table := by
  obtain ⟨noise, rest, hp⟩ := h.passes
  rw [hp.pull] at hitem ⊢
  cases hf : frame l.table rest with
  | tail => rfl
  | noise => rfl
  | cut d => rfl
  | message typeId d payload after => simp [hf, yield] at hitem

end DataFlash.BinaryLog
