import DataFlash.Proofs.Feed
import DataFlash.Proofs.Invariant
import Mathlib.Order.Bounds.Defs

namespace DataFlash

def Notice.skippedBytes? : Notice → Option Nat
  | skipped bytes _ => some bytes
  | _ => none

namespace BinaryLog

/-- Where the headers of defined messages are. -/
def headers (table : Table UInt8) (bytes : List UInt8) : Set Nat :=
  { offset | ∃ typeId d rest, bytes.drop offset = LogKind.sync ++ typeId :: rest ∧
    table.get? typeId = some d }

structure Region where
  skipped : List UInt8
  message : List UInt8

def Region.bytes (r : Region) : List UInt8 := r.skipped ++ r.message

/-- Notices that tell of bytes that are passed over: one if there are any such bytes. -/
def Tell (notices : List Notice) (skipped : List UInt8) : Prop :=
  notices.filterMap Notice.skippedBytes? = if skipped = [] then [] else [skipped.length]

/-- The region of the next item of a reading. Its message stands at the first header and is as long
as the definition in force says, and the item is what the message tells. -/
structure Region.Yields (r : Region) (l : BinaryLog) (notices : List Notice)
    (item : Except LogError Record) : Prop where
  first : IsLeast { offset ∈ headers l.table l.source | l.offset ≤ offset }
    (l.offset + r.skipped.length)
  message : ∃ typeId d payload, r.message = LogKind.sync ++ typeId :: payload ∧
    l.table.get? typeId = some d ∧ r.message.length = d.length ∧
      item = (interpret l.table typeId d payload).1
  told : Tell notices r.skipped

/-- What a reading has left at the end of the data: bytes that are passed over, and then too few for
a header or a message that is cut short. -/
structure Ends (l : BinaryLog) (skipped tail : List UInt8) (notices : List Notice) : Prop where
  tail : tail.length < headerSize ∧
      (∀ offset ∈ headers l.table l.source, offset < l.offset) ∨
    ∃ typeId d rest, tail = LogKind.sync ++ typeId :: rest ∧ l.table.get? typeId = some d ∧
      tail.length < d.length ∧
        IsLeast { offset ∈ headers l.table l.source | l.offset ≤ offset }
          (l.offset + skipped.length)
  told : Tell notices skipped

theorem tell_skipNotice (skipped : List UInt8) (before : Nat) :
    Tell (skipNotice skipped.length before) skipped := by
  unfold Tell skipNotice
  cases skipped <;> rfl

theorem filterMap_interpret (table : Table UInt8) (typeId : UInt8) (d : Definition)
    (payload : List UInt8) :
    (interpret table typeId d payload).2.2.filterMap Notice.skippedBytes? = [] := by
  unfold interpret
  split
  · rfl
  · dsimp only
    split
    · split <;> rfl
    · rfl

/-- What a pull goes through: it passes over noise, and what starts behind the noise settles what it
yields. -/
structure Passes (l : BinaryLog) (noise rest : List UInt8) : Prop where
  split : l.rest = noise ++ rest
  behind : l.source.drop (l.offset + noise.length) = rest
  room : l.offset + noise.length + rest.length = l.source.length
  passed : ∀ k, l.offset ≤ k → k < l.offset + noise.length →
    frame l.table (l.source.drop k) = .noise
  stop : frame l.table rest ≠ .noise
  seek : seek l.table 0 l.rest = (noise.length, rest, frame l.table rest)

variable {l : BinaryLog} {noise rest : List UInt8}

theorem Coherent.passes (h : l.Coherent) : ∃ noise rest, l.Passes noise rest := by
  obtain ⟨noise, rest, hr, hpassed, hne, hs⟩ := seek_passes l.table 0 l.rest
  have hlen := h.length_rest
  rw [hr, List.length_append, ← Nat.add_assoc] at hlen
  refine ⟨noise, rest, {
    split := hr
    behind := (h.drop_add hr).2
    room := hlen
    passed := fun k hle hlt => ?_
    stop := hne
    seek := by rw [hs, Nat.zero_add] }⟩
  have hnoise := hpassed (k - l.offset) (by omega)
  rwa [h.rest, List.drop_drop, Nat.add_sub_cancel' hle] at hnoise

theorem Passes.pull (h : l.Passes noise rest) :
    l.pull = l.yield noise.length rest (frame l.table rest) := pull_eq h.seek

theorem Passes.notMem_headers (h : l.Passes noise rest) {offset : Nat} (hle : l.offset ≤ offset)
    (hlt : offset < l.offset + noise.length) : offset ∉ headers l.table l.source := by
  rintro ⟨typeId, d, after, hdrop, hd⟩
  have hnoise := h.passed offset hle hlt
  rw [hdrop] at hnoise
  have hnone := (frame_eq_noise.mp hnoise).2 typeId after rfl
  rw [hd] at hnone
  cases hnone

/-- The header behind noise is the first. -/
theorem Passes.isLeast_header (h : l.Passes noise rest) {typeId : UInt8} {d : Definition}
    {after : List UInt8} (hrest : rest = LogKind.sync ++ typeId :: after)
    (hd : l.table.get? typeId = some d) :
    IsLeast { offset ∈ headers l.table l.source | l.offset ≤ offset }
      (l.offset + noise.length) := by
  refine ⟨⟨⟨typeId, d, after, h.behind.trans hrest, hd⟩, Nat.le_add_right ..⟩, ?_⟩
  -- One before it would stand where noise starts.
  rintro offset ⟨hheader, hle⟩
  by_contra hlt
  exact h.notMem_headers hle (Nat.lt_of_not_le hlt) hheader

theorem Passes.lt_of_mem_headers (h : l.Passes noise rest) (hshort : rest.length < headerSize)
    {offset : Nat} (hheader : offset ∈ headers l.table l.source) : offset < l.offset := by
  by_contra hle
  have hbehind : l.offset + noise.length ≤ offset := by
    by_contra hlt
    exact h.notMem_headers (Nat.le_of_not_lt hle) (Nat.lt_of_not_le hlt) hheader
  obtain ⟨typeId, d, after, hdrop, -⟩ := hheader
  have hlen := congrArg List.length hdrop
  have hroom := h.room
  simp only [List.length_drop, LogKind.sync, List.length_append, List.length_cons,
    List.length_nil] at hlen
  unfold headerSize at hshort
  omega

/-- A pull that yields an item goes through its region. What that tells is told up to the limit. -/
theorem Coherent.region (h : l.Coherent) {item : Except LogError Record}
    (hitem : l.pull.item = some item) :
    ∃ (r : Region) (notices : List Notice), l.rest = r.bytes ++ l.pull.next.rest ∧
      l.pull.next.offset = l.offset + r.bytes.length ∧
      l.pull.notices = Notice.upTo l.limit notices ∧ r.Yields l notices item := by
  obtain ⟨noise, rest, hp⟩ := h.passes
  rw [hp.pull] at hitem ⊢
  cases hf : frame l.table rest with
  | tail => simp [hf, yield] at hitem
  | noise => simp [hf, yield] at hitem
  | cut d => simp [hf, yield] at hitem
  | message typeId d payload after =>
    simp only [hf, yield, Option.some.injEq] at hitem ⊢
    obtain ⟨hrest, hd, -⟩ := frame_message hf
    have hlen := length_framed h.table hf
    have hmessage : (LogKind.sync ++ typeId :: payload).length = headerSize + payload.length := by
      simp only [LogKind.sync, List.length_append, List.length_cons, List.length_nil, headerSize]
      omega
    have hbytes : l.rest = noise ++ (LogKind.sync ++ typeId :: payload) ++ after := by
      rw [hp.split, hrest, ← List.append_assoc]
    have hheader : rest = LogKind.sync ++ typeId :: (payload ++ after) := by
      rw [hrest, List.append_assoc, List.cons_append]
    refine ⟨{ skipped := noise, message := LogKind.sync ++ typeId :: payload }, _, hbytes, ?_,
      (Notice.upTo_append ..).symm, ?_⟩
    · rw [Region.bytes, List.length_append, hmessage, Nat.add_assoc, Nat.add_assoc]
    · refine { first := ?_, message := ?_, told := ?_ }
      · exact hp.isLeast_header hheader hd
      · exact ⟨typeId, d, payload, rfl, hd, hmessage.trans hlen, hitem.symm⟩
      · rw [Tell, List.filterMap_append, filterMap_interpret, List.append_nil]
        exact tell_skipNotice noise _

/-- A pull that yields no item goes through what is left. -/
theorem Coherent.ends (h : l.Coherent) (hlimit : l.limit = .trace) (hitem : l.pull.item = none) :
    ∃ skipped tail, l.rest = skipped ++ tail ∧ Ends l skipped tail l.pull.notices := by
  obtain ⟨noise, rest, hp⟩ := h.passes
  refine ⟨noise, rest, hp.split, ?_⟩
  rw [hp.pull] at hitem ⊢
  cases hf : frame l.table rest with
  | tail =>
    have hshort := length_lt_of_frame_tail hf
    exact {
      tail := .inl ⟨hshort, fun _ => hp.lt_of_mem_headers hshort⟩
      told := by
        rw [yield, hlimit, Notice.upTo_trace]
        exact tell_skipNotice noise _ }
  | noise => exact absurd hf hp.stop
  | cut d =>
    obtain ⟨typeId, after, hheader, hd, hshort⟩ := frame_cut hf
    exact {
      tail := .inr ⟨typeId, d, after, hheader, hd, hshort, hp.isLeast_header hheader hd⟩
      told := by
        rw [yield, hlimit, Notice.upTo_trace, Notice.upTo_trace]
        exact tell_skipNotice noise _ }
  | message typeId d payload after => simp [hf, yield] at hitem

def passed (notices : List Notice) : Nat :=
  (notices.filterMap Notice.skippedBytes?).foldr (· + ·) 0

theorem passed_append {notices : List Notice} {skipped : List UInt8} (h : Tell notices skipped)
    (more : List Notice) : passed (notices ++ more) = skipped.length + passed more := by
  rw [passed, List.filterMap_append, h]
  cases skipped with
  | nil => exact (Nat.zero_add _).symm
  | cons b rest => rfl

/-- Regions that make up what is left to a reading, one for each item, and what is left behind
them. -/
structure Partition (l : BinaryLog) (regions : List Region) (skipped tail : List UInt8) : Prop where
  bytes : l.rest = regions.flatMap Region.bytes ++ (skipped ++ tail)
  length : regions.length = (Feed.run l).steps.length
  /-- Before an item the reading stands behind the regions of the items before it. -/
  place : ∀ i ≤ regions.length, (Feed.take i l).final.source = l.source ∧
    (Feed.take i l).final.offset = l.offset + ((regions.take i).flatMap Region.bytes).length
  region : ∀ (i : Nat) (r : Region) (notices : List Notice) (item : Except LogError Record),
    regions[i]? = some r → (Feed.run l).steps[i]? = some (notices, item) →
      r.Yields (Feed.take i l).final notices item
  ends : Ends (Feed.take regions.length l).final skipped tail (Feed.run l).closing
  total : passed (Feed.run l).notices + (regions.flatMap Region.message).length + tail.length =
    l.rest.length

theorem Coherent.exists_partition {l : BinaryLog} (h : l.Coherent) (hlimit : l.limit = .trace) :
    ∃ regions skipped tail, Partition l regions skipped tail := by
  -- Along the run: the first region is that of the next pull, the others are those of its reading.
  induction l using Feed.run_induction with
  | ended l hnone =>
    obtain ⟨skipped, tail, hr, hends⟩ := h.ends hlimit hnone
    refine ⟨[], skipped, tail, ?_⟩
    have hrun := Feed.run_none hnone
    refine {
      bytes := hr
      length := by rw [hrun]; rfl
      place := fun i hi => ?_
      region := fun i r notices item hi => by cases hi
      ends := by rw [hrun]; exact hends
      total := ?_ }
    · obtain rfl := Nat.le_zero.mp hi
      exact ⟨rfl, rfl⟩
    · have hnotices : (Feed.run l).notices = l.pull.notices ++ [] := by
        rw [hrun, List.append_nil]
        rfl
      rw [hnotices, passed_append hends.told, hr, List.length_append]
      rfl
  | pulled l item hsome ih =>
    obtain ⟨r, notices, hr, hoffset, htold, hyields⟩ := h.region hsome
    rw [hlimit, Notice.upTo_trace] at htold
    subst htold
    obtain ⟨regions, skipped, tail, hp⟩ := ih h.pull ((limit_pull l).trans hlimit)
    refine ⟨r :: regions, skipped, tail, ?_⟩
    have hrun := Feed.run_some hsome
    have hfinal (i : Nat) :
        (Feed.take (i + 1) l).final = (Feed.take i (Feed.pull l).next).final := by
      rw [Feed.take_succ hsome]
      rfl
    refine {
      bytes := ?_
      length := ?_
      place := fun i hi => ?_
      region := fun i r' notices item' hr' hstep => ?_
      ends := ?_
      total := ?_ }
    · rw [hr, List.flatMap_cons, List.append_assoc, ← hp.bytes]
      rfl
    · rw [hrun, List.length_cons, hp.length]
      rfl
    · cases i with
      | zero => exact ⟨rfl, rfl⟩
      | succ i =>
        obtain ⟨hsource, hplace⟩ := hp.place i (Nat.le_of_succ_le_succ hi)
        rw [hfinal, List.take_succ_cons, List.flatMap_cons, List.length_append, ← Nat.add_assoc,
          ← hoffset]
        exact ⟨hsource.trans (source_pull l), hplace⟩
    · rw [hrun] at hstep
      cases i with
      | zero =>
        cases hr'
        cases hstep
        exact hyields
      | succ i =>
        rw [hfinal]
        exact hp.region i r' notices item' hr' hstep
    · rw [List.length_cons, hfinal, hrun]
      exact hp.ends
    · have hnotices : (Feed.run l).notices =
          l.pull.notices ++ (Feed.run (Feed.pull l).next).notices := by
        rw [hrun, Run.notices_after, List.flatMap_singleton]
        rfl
      have htotal := hp.total
      rw [hnotices, passed_append hyields.told, hr, List.length_append, List.flatMap_cons,
        List.length_append, Region.bytes, List.length_append]
      change _ = (Feed.pull l).next.rest.length at htotal
      change _ = _ + (Feed.pull l).next.rest.length
      omega

/-- Reading a binary log to its end goes through consecutive regions that make up the log, one for
each item. What is passed over is told once for each region and for the end, and with the messages
and what is left at the end it makes up all of the bytes. -/
theorem ofBytes_partition (bytes : List UInt8) :
    ∃ regions skipped tail, Partition (ofBytes bytes) regions skipped tail :=
  (coherent_ofBytes bytes).exists_partition rfl

end BinaryLog

end DataFlash
