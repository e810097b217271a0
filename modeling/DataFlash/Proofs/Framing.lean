import DataFlash.Log.Binary
import DataFlash.Proofs.Definition

namespace DataFlash.BinaryLog

variable {table : Table UInt8}

theorem frame_tail_of_length_lt (table : Table UInt8) {bytes : List UInt8}
    (h : bytes.length < headerSize) :
    frame table bytes = .tail := by
  match bytes, h with
  | [], _ => rfl
  | [_], _ => rfl
  | [_, _], _ => rfl

theorem frame_header {typeId : UInt8} {d : Definition} (hd : table.get? typeId = some d)
    (rest : List UInt8) :
    frame table (LogKind.sync ++ typeId :: rest) =
      if d.length - headerSize ≤ rest.length then
        .message typeId d (rest.take (d.length - headerSize)) (rest.drop (d.length - headerSize))
      else .cut d := by
  by_cases h : d.length - headerSize ≤ rest.length
  · simp [frame, LogKind.sync, hd, Bytes.split?_eq, h]
  · simp [frame, LogKind.sync, hd, Bytes.split?_eq, h]

theorem frame_message_written {typeId : UInt8} {d : Definition} (hd : table.get? typeId = some d)
    {payload : List UInt8} (hlen : payload.length + headerSize = d.length) (after : List UInt8) :
    frame table (LogKind.sync ++ typeId :: payload ++ after) = .message typeId d payload after := by
  have hp : d.length - headerSize = payload.length := by omega
  rw [List.append_assoc, List.cons_append, frame_header hd, hp]
  simp

/-- Noise is three bytes or more that do not start with the header of a defined type. -/
theorem frame_eq_noise {bytes : List UInt8} :
    frame table bytes = .noise ↔
      headerSize ≤ bytes.length ∧
        ∀ typeId rest, bytes = LogKind.sync ++ typeId :: rest → table.get? typeId = none := by
  constructor
  · intro h
    constructor
    · by_contra hlt
      rw [frame_tail_of_length_lt table (by omega)] at h
      cases h
    · rintro typeId rest rfl
      cases hd : table.get? typeId with
      | none => rfl
      | some d =>
        rw [frame_header hd] at h
        split at h <;> cases h
  · rintro ⟨hlen, hnone⟩
    match bytes, hlen with
    | first :: second :: typeId :: rest, _ =>
      by_cases hs : [first, second] = LogKind.sync
      · have hd := hnone typeId rest (by rw [← hs]; rfl)
        simp [frame, hs, hd]
      · simp [frame, hs]

theorem exists_header {bytes : List UInt8} (hlen : headerSize ≤ bytes.length)
    (h : frame table bytes ≠ .noise) :
    ∃ typeId rest d, bytes = LogKind.sync ++ typeId :: rest ∧ table.get? typeId = some d := by
  by_contra hno
  refine h (frame_eq_noise.mpr ⟨hlen, ?_⟩)
  intro typeId rest hb
  rw [Option.eq_none_iff_forall_ne_some]
  intro d hd
  exact hno ⟨typeId, rest, d, hb, hd⟩

theorem length_lt_of_frame_tail {bytes : List UInt8} (h : frame table bytes = .tail) :
    bytes.length < headerSize := by
  have hne : frame table bytes ≠ .noise := by simp [h]
  by_contra hlen
  obtain ⟨typeId, rest, d, rfl, hd⟩ := exists_header (Nat.le_of_not_lt hlen) hne
  rw [frame_header hd] at h
  split at h <;> cases h

theorem frame_cut {bytes : List UInt8} {d : Definition} (h : frame table bytes = .cut d) :
    ∃ typeId rest, bytes = LogKind.sync ++ typeId :: rest ∧ table.get? typeId = some d ∧
      bytes.length < d.length := by
  have hne : frame table bytes ≠ .noise := by simp [h]
  have hlen : headerSize ≤ bytes.length := by
    by_contra hlt
    rw [frame_tail_of_length_lt table (Nat.lt_of_not_le hlt)] at h
    cases h
  obtain ⟨typeId, rest, d', rfl, hd⟩ := exists_header hlen hne
  rw [frame_header hd] at h
  split at h
  · cases h
  · next hshort =>
    cases h
    refine ⟨typeId, rest, rfl, hd, ?_⟩
    simp only [LogKind.sync, List.length_append, List.length_cons, List.length_nil, headerSize]
      at hshort ⊢
    omega

theorem frame_append_noise {bytes : List UInt8} (h : frame table bytes = .noise)
    (more : List UInt8) : frame table (bytes ++ more) = .noise := by
  obtain ⟨hlen, hnone⟩ := frame_eq_noise.mp h
  refine frame_eq_noise.mpr ⟨by rw [List.length_append]; omega, ?_⟩
  intro typeId rest he
  match bytes, hlen, hnone, he with
  | first :: second :: third :: tail, _, hnone, he =>
    simp only [LogKind.sync, List.cons_append, List.nil_append, List.cons.injEq] at he
    obtain ⟨rfl, rfl, rfl, -⟩ := he
    exact hnone third tail rfl

theorem frame_append_message {bytes payload after : List UInt8} {typeId : UInt8} {d : Definition}
    (h : frame table bytes = .message typeId d payload after) (more : List UInt8) :
    frame table (bytes ++ more) = .message typeId d payload (after ++ more) := by
  obtain ⟨rfl, hd, hlen⟩ := frame_message h
  rw [List.append_assoc, List.append_assoc, List.cons_append, frame_header hd,
    if_pos (by rw [List.length_append]; omega), ← hlen]
  simp

theorem seek_of_frame_ne_noise {bytes : List UInt8} (h : frame table bytes ≠ .noise)
    (skipped : Nat) : seek table skipped bytes = (skipped, bytes, frame table bytes) := by
  cases bytes with
  | nil => rfl
  | cons b rest =>
    unfold seek
    split
    · exact absurd ‹_› h
    · rfl

theorem seek_cons_noise {b : UInt8} {rest : List UInt8} (h : frame table (b :: rest) = .noise)
    (skipped : Nat) : seek table skipped (b :: rest) = seek table (skipped + 1) rest := by
  rw [seek, h]

/-- The search passes over noise byte by byte, and ends where something else starts. -/
theorem seek_passes (table : Table UInt8) (skipped : Nat) (bytes : List UInt8) :
    ∃ noise rest, bytes = noise ++ rest ∧
      (∀ i < noise.length, frame table (bytes.drop i) = .noise) ∧ frame table rest ≠ .noise ∧
        seek table skipped bytes = (skipped + noise.length, rest, frame table rest) := by
  induction bytes generalizing skipped with
  | nil => exact ⟨[], [], rfl, nofun, by simp [frame], rfl⟩
  | cons b rest ih =>
    by_cases h : frame table (b :: rest) = .noise
    · obtain ⟨noise, after, hrest, hpassed, hn, hs⟩ := ih (skipped + 1)
      refine ⟨b :: noise, after, by rw [hrest, List.cons_append], fun i hi => ?_, hn, ?_⟩
      · cases i with
        | zero => exact h
        | succ i => exact hpassed i (Nat.lt_of_succ_lt_succ hi)
      · rw [seek_cons_noise h, hs, List.length_cons]
        congr 1
        omega
    · exact ⟨[], b :: rest, rfl, nofun, h, seek_of_frame_ne_noise h skipped⟩

theorem seek_spec (table : Table UInt8) (skipped : Nat) (bytes : List UInt8) :
    ∃ noise rest, bytes = noise ++ rest ∧ frame table rest ≠ .noise ∧
      seek table skipped bytes = (skipped + noise.length, rest, frame table rest) :=
  have ⟨noise, rest, hbytes, _, hne, hs⟩ := seek_passes table skipped bytes
  ⟨noise, rest, hbytes, hne, hs⟩

theorem seek_drop {n : Nat} {bytes : List UInt8}
    (h : ∀ i < n, frame table (bytes.drop i) = .noise) (skipped : Nat) :
    seek table skipped bytes = seek table (skipped + n) (bytes.drop n) := by
  induction n generalizing skipped bytes with
  | zero => rfl
  | succ n ih =>
    cases bytes with
    | nil => cases h 0 (by omega)
    | cons b rest =>
      have h0 : frame table (b :: rest) = .noise := h 0 (by omega)
      have hs : ∀ i < n, frame table (rest.drop i) = .noise := by
        intro i hi
        exact h (i + 1) (by omega)
      rw [seek_cons_noise h0, ih hs, List.drop_succ_cons]
      congr 1
      omega

/-- A message that is found is found whatever follows the data. -/
theorem seek_append_message {skipped n : Nat} {bytes rest payload after : List UInt8}
    {typeId : UInt8} {d : Definition}
    (h : seek table skipped bytes = (n, rest, .message typeId d payload after))
    (more : List UInt8) :
    seek table skipped (bytes ++ more) =
      (n, rest ++ more, .message typeId d payload (after ++ more)) := by
  induction bytes generalizing skipped with
  | nil => cases h
  | cons b bytes ih =>
    by_cases hb : frame table (b :: bytes) = .noise
    · have hm : frame table (b :: (bytes ++ more)) = .noise := frame_append_noise hb more
      rw [seek_cons_noise hb] at h
      rw [List.cons_append, seek_cons_noise hm]
      exact ih h
    · rw [seek_of_frame_ne_noise hb] at h
      simp only [Prod.mk.injEq] at h
      obtain ⟨rfl, rfl, hf⟩ := h
      have hm := frame_append_message hf more
      rw [seek_of_frame_ne_noise (by rw [hm]; simp), hm]

theorem pull_eq {l : BinaryLog} {skipped : Nat} {rest : List UInt8} {framing : Framing}
    (h : seek l.table 0 l.rest = (skipped, rest, framing)) :
    l.pull = l.yield skipped rest framing := by
  unfold pull
  rw [h]

end DataFlash.BinaryLog
