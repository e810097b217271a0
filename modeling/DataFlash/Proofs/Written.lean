import DataFlash.Proofs.Invariant
import DataFlash.Proofs.Messages

namespace DataFlash.BinaryLog

inductive Message where
  | definition (payload : List UInt8) (learned : Definition)
  | data (d : Definition) (payload : List UInt8)

/-- A message and the bytes in front of it that belong to none. -/
structure Segment where
  noise : List UInt8
  message : Message

namespace Message

def layout : Message → Definition
  | definition .. => .defining
  | data d _ => d

def payload : Message → List UInt8
  | definition p _ | data _ p => p

def learned : Message → List Definition
  | definition _ d => [d]
  | data .. => []

def bytes (m : Message) : List UInt8 := LogKind.sync ++ m.layout.typeId :: m.payload

def record (m : Message) : Except LogError Record :=
  (m.layout.decode m.payload).map fun fields => { name := m.layout.name, fields }

end Message

/-- The bytes of a log; after its last message there may be more noise. -/
def written : List Segment → List UInt8 → List UInt8
  | [], tail => tail
  | s :: more, tail => s.noise ++ (s.message.bytes ++ written more tail)

def inForce (earlier : List Definition) (typeId : UInt8) : Option Definition :=
  (earlier.find? fun d => d.typeId == typeId).or
    (if typeId = Definition.defining.typeId then some .defining else none)

/-- A message that can follow some definitions. A definition is spelled out in the layout that all
logs start with, it is learned, and it does not change that layout. Data have a definition, the
newest of its type, and the length that it declares. -/
def Message.Fits (earlier : List Definition) : Message → Prop
  | definition payload learned =>
    payload.length + headerSize = Definition.defining.length ∧
      learned.typeId ≠ Definition.defining.typeId ∧
      ∃ fields, Definition.defining.decode payload = .ok fields ∧
        Definition.ofRecord { name := Definition.defining.name, fields } = .ok learned
  | data d payload =>
    (earlier.find? fun e => e.typeId == d.typeId) = some d ∧
      payload.length + headerSize = d.length

/-- No position in the noise starts with the header of a defined type, not even one that runs into
what follows. -/
def Quiet (earlier : List Definition) (noise following : List UInt8) : Prop :=
  ∀ i < noise.length, ∀ typeId rest,
    (noise ++ following).drop i = LogKind.sync ++ typeId :: rest → inForce earlier typeId = none

def header? : List UInt8 → Option UInt8
  | first :: second :: typeId :: _ => if [first, second] = LogKind.sync then some typeId else none
  | _ => none

theorem header?_eq_some {bytes : List UInt8} {typeId : UInt8} :
    header? bytes = some typeId ↔ ∃ rest, bytes = LogKind.sync ++ typeId :: rest := by
  unfold header?
  split
  · simp [LogKind.sync, and_assoc]
  · rename_i hno
    apply iff_of_false (by simp)
    rintro ⟨rest, rfl⟩
    exact hno _ _ _ _ rfl

instance (earlier : List Definition) (noise following : List UInt8) :
    Decidable (Quiet earlier noise following) :=
  decidable_of_iff (∀ i < noise.length, (header? ((noise ++ following).drop i)).all fun typeId =>
    (inForce earlier typeId).isNone) <| by
      simp only [Quiet, Option.all_eq_true, header?_eq_some, forall_exists_index,
        Option.isNone_iff_eq_none]

/-- Messages that fit, each after those before it, with quiet noise around them. -/
def Legible (earlier : List Definition) : List Segment → List UInt8 → Prop
  | [], tail => Quiet earlier tail []
  | s :: more, tail =>
    Quiet earlier s.noise (s.message.bytes ++ written more tail) ∧ s.message.Fits earlier ∧
      Legible (s.message.learned ++ earlier) more tail

/-- What is told before each record of a log from an offset on: the noise, if there is any, and
what is learned. -/
def told : Nat → List Segment → List (List Notice)
  | _, [] => []
  | offset, s :: more =>
    (skipNotice s.noise.length (offset + s.noise.length) ++ s.message.learned.map .learned) ::
      told (offset + s.noise.length + s.message.bytes.length) more

theorem inForce_nil (typeId : UInt8) : inForce [] typeId = initialTable.get? typeId := by
  rw [get?_initialTable]
  rfl

theorem inForce_cons (d : Definition) (earlier : List Definition) (typeId : UInt8) :
    inForce (d :: earlier) typeId =
      if typeId = d.typeId then some d else inForce earlier typeId := by
  by_cases h : typeId = d.typeId
  · simp [inForce, h]
  · have hb : (d.typeId == typeId) = false := by simpa using Ne.symm h
    simp [inForce, hb, h]

/-- A reading that has learned some definitions, the newest first, none of which changes how
definitions are read. -/
structure Follows (earlier : List Definition) (l : BinaryLog) : Prop where
  coherent : l.Coherent
  table : ∀ typeId, l.table.get? typeId = inForce earlier typeId
  kept : ∀ d ∈ earlier, d.typeId ≠ Definition.defining.typeId
  limit : l.limit = .trace

theorem follows_ofBytes (bytes : List UInt8) : Follows [] (ofBytes bytes) where
  coherent := coherent_ofBytes bytes
  table typeId := (inForce_nil typeId).symm
  kept := by simp
  limit := rfl

variable {earlier : List Definition} {l : BinaryLog}

theorem Follows.layout (h : Follows earlier l) {m : Message} (hfits : m.Fits earlier) :
    l.table.get? m.layout.typeId = some m.layout ∧
      m.payload.length + headerSize = m.layout.length := by
  cases m with
  | definition payload learned =>
    -- Nothing learned has taken the place of the definition of definitions.
    have hnone : (earlier.find? fun d => d.typeId == Definition.defining.typeId) = none := by
      rw [List.find?_eq_none]
      simpa using h.kept
    refine ⟨?_, hfits.1⟩
    rw [h.table]
    simp [inForce, Message.layout, hnone]
  | data d payload =>
    refine ⟨?_, hfits.2⟩
    rw [h.table]
    simp [inForce, Message.layout, hfits.1]

theorem Follows.record (h : Follows earlier l) {m : Message} (hfits : m.Fits earlier) :
    ∃ fields, m.layout.decode m.payload = .ok fields ∧ fields.map (·.1) = m.layout.columns ∧
      m.record = .ok { name := m.layout.name, fields } := by
  obtain ⟨hd, hlen⟩ := h.layout hfits
  have hsound := (h.coherent.table.entry _ _ hd).2
  have hsize : m.payload.length = m.layout.length - headerSize := by omega
  obtain ⟨fields, hf, hc⟩ := hsound.decode_ok (hsound.payloadSize_le hsize)
  exact ⟨fields, hf, hc, by simp [Message.record, hf, Except.map]⟩

/-- A message that fits yields its record, and what it defines is in force after it. -/
theorem Follows.interpret (h : Follows earlier l) {m : Message} (hfits : m.Fits earlier) :
    ∃ table, interpret l.table m.layout.typeId m.layout m.payload =
        (m.record, table, m.learned.map .learned) ∧
      ∀ typeId, table.get? typeId = inForce (m.learned ++ earlier) typeId := by
  obtain ⟨fields, hf, -, hr⟩ := h.record hfits
  cases m with
  | definition payload learned =>
    obtain ⟨-, -, fields', hf', hl⟩ := hfits
    have he : fields = fields' := Except.ok.inj (hf.symm.trans hf')
    subst he
    refine ⟨l.table.insert learned.typeId learned, ?_, ?_⟩
    · rw [hr]
      exact interpret_learned hf rfl hl
    · intro typeId
      rw [Table.get?_insert, h.table]
      exact (inForce_cons learned earlier typeId).symm
  | data d payload =>
    have hne : d.typeId ≠ Definition.defining.typeId := h.kept d (List.mem_of_find?_eq_some hfits.1)
    refine ⟨l.table, ?_, h.table⟩
    rw [hr]
    exact interpret_data hf hne

theorem Follows.kept_append (h : Follows earlier l) {m : Message} (hfits : m.Fits earlier) :
    ∀ d ∈ m.learned ++ earlier, d.typeId ≠ Definition.defining.typeId := by
  intro d hd
  rcases List.mem_append.mp hd with hlearned | hearlier
  · cases m with
    | definition payload learned =>
      cases List.mem_singleton.mp hlearned
      exact hfits.2.1
    | data d' payload => cases hlearned
  · exact h.kept d hearlier

theorem length_bytes (m : Message) : m.bytes.length = headerSize + m.payload.length := by
  simp [Message.bytes, LogKind.sync, headerSize]
  omega

/-- The search skips quiet noise as far as whole headers go. -/
theorem Follows.seek_noise (h : Follows earlier l) {noise following : List UInt8}
    (hquiet : Quiet earlier noise following) {n : Nat} (hn : n ≤ noise.length)
    (hlen : n + 2 ≤ (noise ++ following).length ∨ n = 0) :
    seek l.table 0 (noise ++ following) = seek l.table n ((noise ++ following).drop n) := by
  have hnoise : ∀ i < n, frame l.table ((noise ++ following).drop i) = .noise := by
    intro i hi
    refine frame_eq_noise.mpr ⟨?_, ?_⟩
    · rw [List.length_drop]
      unfold headerSize
      omega
    · intro typeId rest hr
      rw [h.table]
      exact hquiet i (by omega) typeId rest hr
  rw [seek_drop hnoise, Nat.zero_add]

/-- One pull takes the noise and the message after it. -/
theorem Follows.pull (h : Follows earlier l) {s : Segment} {after : List UInt8}
    (hrest : l.rest = s.noise ++ (s.message.bytes ++ after))
    (hquiet : Quiet earlier s.noise (s.message.bytes ++ after)) (hfits : s.message.Fits earlier) :
    l.pull.item = some s.message.record ∧
      l.pull.notices = skipNotice s.noise.length (l.offset + s.noise.length) ++
        s.message.learned.map .learned ∧
      l.pull.next.rest = after ∧
      l.pull.next.offset = l.offset + s.noise.length + s.message.bytes.length ∧
      Follows (s.message.learned ++ earlier) l.pull.next := by
  obtain ⟨hd, hlen⟩ := h.layout hfits
  obtain ⟨table, hi, ht⟩ := h.interpret hfits
  have hframe : frame l.table (s.message.bytes ++ after) =
      .message s.message.layout.typeId s.message.layout s.message.payload after :=
    frame_message_written hd hlen after
  have hseek : seek l.table 0 l.rest = (s.noise.length, s.message.bytes ++ after,
      .message s.message.layout.typeId s.message.layout s.message.payload after) := by
    have hroom : s.noise.length + 2 ≤ (s.noise ++ (s.message.bytes ++ after)).length := by
      rw [List.length_append, List.length_append, length_bytes]
      unfold headerSize
      omega
    rw [hrest, h.seek_noise hquiet (Nat.le_refl _) (.inl hroom), List.drop_left,
      seek_of_frame_ne_noise (by simp [hframe]), hframe]
  -- What is left of the pull is decided by what the message tells.
  have hnext := h.coherent.pull
  rw [pull_eq hseek] at hnext ⊢
  simp only [yield, hi, h.limit, Notice.upTo_trace] at hnext ⊢
  refine ⟨trivial, trivial, trivial, ?_, hnext, ht, h.kept_append hfits, rfl⟩
  rw [length_bytes]
  omega

/-- At the end of quiet noise there are two bytes that the search leaves. -/
theorem Follows.pull_tail (h : Follows earlier l) (hquiet : Quiet earlier l.rest []) :
    l.pull.item = none ∧
      l.pull.notices = skipNotice (l.rest.length - 2) (l.offset + (l.rest.length - 2)) := by
  have hshort : (l.rest.drop (l.rest.length - 2)).length < headerSize := by
    rw [List.length_drop]
    unfold headerSize
    omega
  have hframe := frame_tail_of_length_lt l.table hshort
  have hseek : seek l.table 0 l.rest =
      (l.rest.length - 2, l.rest.drop (l.rest.length - 2), .tail) := by
    have hs := h.seek_noise hquiet (n := l.rest.length - 2) (by omega)
      (by rw [List.append_nil]; omega)
    rw [List.append_nil] at hs
    rw [hs, seek_of_frame_ne_noise (by simp [hframe]), hframe]
  rw [pull_eq hseek]
  simp only [yield, h.limit, Notice.upTo_trace, and_self]

theorem Follows.run {segments : List Segment} {tail : List UInt8} (h : Follows earlier l)
    (hlegible : Legible earlier segments tail) (hrest : l.rest = written segments tail) :
    (Feed.run l).items = segments.map (·.message.record) ∧
      (Feed.run l).steps.map (·.1) = told l.offset segments ∧
      (Feed.run l).closing = skipNotice (tail.length - 2) (l.source.length - 2) := by
  induction segments generalizing earlier l with
  | nil =>
    have hlen := h.coherent.length_rest
    simp only [written] at hrest
    obtain ⟨hitem, hnotices⟩ := h.pull_tail (by rwa [hrest])
    have hrun := Feed.run_none (s := l) hitem
    rw [hrun]
    refine ⟨rfl, rfl, hnotices.trans ?_⟩
    rw [hrest] at hlen ⊢
    -- Noise of at most two bytes is not told of, so its offset does not matter.
    by_cases hshort : tail.length - 2 = 0
    · simp [hshort, skipNotice]
    · congr 1
      omega
  | cons s more ih =>
    obtain ⟨hquiet, hfits, hmore⟩ := hlegible
    obtain ⟨hitem, hnotices, hafter, hoffset, hnext⟩ := h.pull hrest hquiet hfits
    obtain ⟨hitems, hsteps, hclosing⟩ := ih hnext hmore hafter
    have hrun := Feed.run_some (s := l) hitem
    rw [hrun]
    refine ⟨?_, ?_, ?_⟩
    · exact congrArg (s.message.record :: ·) hitems
    · have hfirst : (Feed.pull l).notices = l.pull.notices := rfl
      rw [hoffset] at hsteps
      simp only [Run.after, List.singleton_append, List.map_cons, told, hfirst, hnotices]
      exact congrArg _ hsteps
    · rw [source_pull] at hclosing
      exact hclosing

theorem Follows.records {segments : List Segment} {tail : List UInt8} (h : Follows earlier l)
    (hlegible : Legible earlier segments tail) (hrest : l.rest = written segments tail) :
    ∀ s ∈ segments, ∃ fields, s.message.layout.decode s.message.payload = .ok fields ∧
      fields.map (·.1) = s.message.layout.columns ∧
      s.message.record = .ok { name := s.message.layout.name, fields } := by
  induction segments generalizing earlier l with
  | nil => simp
  | cons s more ih =>
    obtain ⟨hquiet, hfits, hmore⟩ := hlegible
    obtain ⟨-, -, hafter, -, hnext⟩ := h.pull hrest hquiet hfits
    intro s' hs'
    rcases List.mem_cons.mp hs' with rfl | hs'
    · exact h.record hfits
    · exact ih hnext hmore hafter s' hs'

/-- Reading a log finds its messages, one record each, with the name and the columns of their
definitions, and no error. Noise is told of once, before the record that follows it; behind the last
message all of it but two bytes is told of. -/
theorem run_written {segments : List Segment} {tail : List UInt8}
    (h : Legible [] segments tail) :
    let run := Feed.run (ofBytes (written segments tail))
    run.items = segments.map (·.message.record) ∧
      (∀ s ∈ segments, ∃ fields, s.message.layout.decode s.message.payload = .ok fields ∧
        fields.map (·.1) = s.message.layout.columns ∧
        s.message.record = .ok { name := s.message.layout.name, fields }) ∧
      run.steps.map (·.1) = told 0 segments ∧
      run.closing = skipNotice (tail.length - 2) ((written segments tail).length - 2) := by
  have hfollows := follows_ofBytes (written segments tail)
  obtain ⟨hitems, hsteps, hclosing⟩ := hfollows.run h rfl
  exact ⟨hitems, hfollows.records h rfl, hsteps, hclosing⟩

/-- A log whose noise runs into the messages: it ends in the first or in both sync bytes, or has the
header of a type that is only defined later. The type is defined twice, with different lengths. -/
def straddled : List Segment :=
  let narrow : Definition :=
    { typeId := 5, length := 4, name := "AB", format := "B", columns := ["x"] }
  let wide : Definition :=
    { typeId := 5, length := 6, name := "AB", format := "BH", columns := ["x", "y"] }
  let payload (d : Definition) :=
    Definition.encodeFields Definition.defining.format.toList d.spelled
  [{ noise := [0xA3, 0x95, 5, 0xA3], message := .definition (payload narrow) narrow },
    { noise := [0xA3, 0x95], message := .data narrow [7] },
    { noise := [], message := .definition (payload wide) wide },
    { noise := [5, 0xA3], message := .data wide [7, 0xA3, 0x95] }]

theorem run_written_straddled :
    let run := Feed.run (ofBytes (written straddled [0xA3, 0x95, 9, 0xA3, 0x95]))
    run.items = straddled.map (·.message.record) ∧
      run.steps.map (·.1.length) = [2, 1, 1, 1] ∧ run.closing = [.skipped 3 199] := by
  have hlegible : Legible [] straddled [0xA3, 0x95, 9, 0xA3, 0x95] := by
    refine ⟨by decide +kernel, ⟨rfl, by decide, _, rfl, rfl⟩, by decide +kernel, ⟨rfl, rfl⟩,
      by decide +kernel, ⟨rfl, by decide, _, rfl, rfl⟩, by decide +kernel, ⟨rfl, rfl⟩, ?_⟩
    show Quiet _ _ _
    decide +kernel
  have htold : (told 0 straddled).map List.length = [2, 1, 1, 1] := by decide +kernel
  have hsize : (written straddled [0xA3, 0x95, 9, 0xA3, 0x95]).length = 201 := by decide +kernel
  obtain ⟨hitems, -, hsteps, hclosing⟩ := run_written hlegible
  refine ⟨hitems, ?_, ?_⟩
  · rw [← htold, ← hsteps, List.map_map]
    rfl
  · rw [hclosing, hsize]
    rfl

end DataFlash.BinaryLog
