import DataFlash.Proofs.Regions

namespace DataFlash.BinaryLog

def passing (l : BinaryLog) : Nat := (seek l.table 0 l.rest).1

variable {l : BinaryLog}

theorem Passes.passing {noise rest : List UInt8} (h : l.Passes noise rest) :
    l.passing = noise.length := by
  rw [BinaryLog.passing, h.seek]

/-- What a pull passes over is what has nothing framed up to it. -/
theorem Coherent.forall_noise_iff (h : l.Coherent) {j : Nat} :
    (∀ k, l.offset ≤ k → k ≤ j → frame l.table (l.source.drop k) = .noise) ↔
      j < l.offset + l.passing := by
  obtain ⟨noise, rest, hp⟩ := h.passes
  rw [hp.passing]
  constructor
  · intro hnoise
    by_contra hbehind
    have hstop := hnoise _ (Nat.le_add_right ..) (Nat.le_of_not_lt hbehind)
    rw [hp.behind] at hstop
    exact hp.stop hstop
  · exact fun hlt k hk hkj => hp.passed k hk (Nat.lt_of_le_of_lt hkj hlt)

theorem mem_skipNotice {n o skipped before : Nat} :
    .skipped n o ∈ skipNotice skipped before ↔ 0 < n ∧ n = skipped ∧ o = before := by
  unfold skipNotice
  split
  · exact iff_of_false (List.not_mem_nil) (by omega)
  · rw [List.mem_singleton, Notice.skipped.injEq]
    omega

theorem truncated_notMem_skipNotice {name : String} {offset present length skipped before : Nat} :
    .truncated name offset present length ∉ skipNotice skipped before := by
  unfold skipNotice
  split <;> simp

theorem skipped_notMem_interpret {table : Table UInt8} {typeId : UInt8} {d : Definition}
    {payload : List UInt8} {n o : Nat} : .skipped n o ∉ (interpret table typeId d payload).2.2 := by
  intro hmem
  have hcount : n ∈ (interpret table typeId d payload).2.2.filterMap Notice.skippedBytes? :=
    List.mem_filterMap.mpr ⟨_, hmem, rfl⟩
  rw [filterMap_interpret] at hcount
  cases hcount

theorem Coherent.skipped_of_item (h : l.Coherent) (hlimit : l.limit = .trace)
    {item : Except LogError Record} (hitem : l.pull.item = some item) :
    l.offset + l.passing < l.pull.next.offset ∧
      ∀ n o, .skipped n o ∈ l.pull.notices → 0 < n ∧ n = l.passing ∧ o = l.offset + l.passing := by
  obtain ⟨noise, rest, hp⟩ := h.passes
  rw [hp.pull] at hitem ⊢
  rw [hp.passing]
  cases hf : frame l.table rest with
  | tail => simp [hf, yield] at hitem
  | noise => simp [hf, yield] at hitem
  | cut d => simp [hf, yield] at hitem
  | message typeId d payload after =>
    simp only [yield, hlimit, Notice.upTo_trace]
    refine ⟨by unfold headerSize; omega, fun n o hmem => ?_⟩
    rcases List.mem_append.mp hmem with hskip | hlearn
    · exact mem_skipNotice.mp hskip
    · exact absurd hlearn skipped_notMem_interpret

theorem Coherent.notices_of_end (h : l.Coherent) (hlimit : l.limit = .trace)
    (hitem : l.pull.item = none) :
    l.pull.notices = skipNotice l.passing (l.offset + l.passing) ∨
      ∃ name present length, l.pull.notices =
        .truncated name (l.offset + l.passing) present length ::
          skipNotice l.passing l.source.length := by
  obtain ⟨noise, rest, hp⟩ := h.passes
  rw [hp.pull] at hitem ⊢
  rw [hp.passing]
  cases hf : frame l.table rest with
  | tail => exact .inl (by rw [yield, hlimit, Notice.upTo_trace])
  | noise => exact absurd hf hp.stop
  | cut d => exact .inr ⟨d.name, rest.length, d.length, by
      rw [yield, hlimit, Notice.upTo_trace, Notice.upTo_trace, hp.room]
      rfl⟩
  | message typeId d payload after => simp [hf, yield] at hitem

def reading (bytes : List UInt8) (items : Nat) : BinaryLog :=
  (Feed.take items (ofBytes bytes)).final

def itemCount (bytes : List UInt8) : Nat := (Feed.run (ofBytes bytes)).steps.length

/-- A byte that is passed over when some bytes are read to their end: from where a pull begins there
is nothing framed up to that byte. -/
def PassedOver (bytes : List UInt8) (j : Nat) : Prop :=
  ∃ i ≤ itemCount bytes, (reading bytes i).offset ≤ j ∧
    ∀ k, (reading bytes i).offset ≤ k → k ≤ j →
      frame (reading bytes i).table (bytes.drop k) = .noise

/-- A longest run of `n` bytes that are passed over, up to an offset. -/
structure SkippedRun (bytes : List UInt8) (n stop : Nat) : Prop where
  pos : 0 < n
  le : n ≤ stop
  passed : ∀ j, stop - n ≤ j → j < stop → PassedOver bytes j
  before : ∀ j, j + 1 = stop - n → ¬ PassedOver bytes j
  behind : ¬ PassedOver bytes stop

variable {bytes : List UInt8}

theorem reading_coherent {i : Nat} (hi : i ≤ itemCount bytes) :
    (reading bytes i).Coherent ∧ (reading bytes i).source = bytes ∧
      (reading bytes i).limit = .trace := by
  induction i with
  | zero => exact ⟨coherent_ofBytes bytes, rfl, rfl⟩
  | succ i ih =>
    obtain ⟨hcoherent, hsource, hlimit⟩ := ih (Nat.le_of_succ_le hi)
    rw [reading, (Feed.pull_take (List.getElem?_eq_getElem hi)).2.2]
    exact ⟨hcoherent.pull, (source_pull _).trans hsource, (limit_pull _).trans hlimit⟩

/-- Each reading stands behind what the readings before it pass over. -/
theorem offset_reading_lt {i j : Nat} (hij : i < j) (hj : j ≤ itemCount bytes) :
    (reading bytes i).offset + (reading bytes i).passing < (reading bytes j).offset := by
  induction j with
  | zero => omega
  | succ j ih =>
    have hlast : (reading bytes j).offset + (reading bytes j).passing <
        (reading bytes (j + 1)).offset := by
      obtain ⟨hitem, -, hfinal⟩ := Feed.pull_take (List.getElem?_eq_getElem hj)
      obtain ⟨hcoherent, -, hlimit⟩ := reading_coherent (Nat.le_of_succ_le hj)
      rw [reading, reading, hfinal]
      exact (hcoherent.skipped_of_item hlimit hitem).1
    rcases Nat.lt_succ_iff_lt_or_eq.mp hij with hlt | rfl
    · have hearlier := ih hlt (Nat.le_of_succ_le hj)
      omega
    · exact hlast

theorem passedOver_iff {j : Nat} : PassedOver bytes j ↔ ∃ i ≤ itemCount bytes,
    (reading bytes i).offset ≤ j ∧ j < (reading bytes i).offset + (reading bytes i).passing := by
  refine exists_congr fun i => and_congr_right fun hi => and_congr_right fun _ => ?_
  obtain ⟨hcoherent, hsource, -⟩ := reading_coherent hi
  rw [← hcoherent.forall_noise_iff, hsource]

/-- Next to the bytes that a pull passes over no other pull passes over any. -/
theorem PassedOver.near {i j : Nat} (h : PassedOver bytes j) (hi : i ≤ itemCount bytes)
    (hle : (reading bytes i).offset ≤ j + 1)
    (hlt : j ≤ (reading bytes i).offset + (reading bytes i).passing) :
    (reading bytes i).offset ≤ j ∧ j < (reading bytes i).offset + (reading bytes i).passing := by
  obtain ⟨k, hk, hstart, hstop⟩ := passedOver_iff.mp h
  -- An earlier pull ends before this one starts, and a later one starts behind a message.
  rcases Nat.lt_trichotomy k i with hki | rfl | hik
  · have hbefore := offset_reading_lt hki hi
    omega
  · exact ⟨hstart, hstop⟩
  · have hbehind := offset_reading_lt hik hk
    omega

/-- The bytes that one pull passes over are a longest run. -/
theorem skippedRun_passing {i : Nat} (hi : i ≤ itemCount bytes)
    (hpos : 0 < (reading bytes i).passing) :
    SkippedRun bytes (reading bytes i).passing
      ((reading bytes i).offset + (reading bytes i).passing) where
  pos := hpos
  le := Nat.le_add_left ..
  passed j hle hlt := passedOver_iff.mpr ⟨i, hi, by omega, hlt⟩
  before j hj hpassed := by
    have hnear := hpassed.near hi (by omega) (by omega)
    omega
  behind hpassed := by
    have hnear := hpassed.near hi (by omega) (Nat.le_refl _)
    omega

theorem not_skippedRun_length (bytes : List UInt8) (n : Nat) :
    ¬ SkippedRun bytes n bytes.length := by
  intro h
  have hpos := h.pos
  have hle := h.le
  obtain ⟨i, hi, hstart, hnoise⟩ := h.passed (bytes.length - 1) (by omega) (by omega)
  have hroom := (frame_eq_noise.mp (hnoise _ hstart (Nat.le_refl _))).1
  rw [List.length_drop] at hroom
  unfold headerSize at hroom
  omega

/-- Before every item the notice of bytes that were passed over names a longest run of them and the
offset behind it. So does the notice at the end unless the data end inside a message. Then it names
the end of the data, where no such run ends; the run ends where that message starts. -/
theorem skipped_notices (bytes : List UInt8) :
    let run := Feed.run (ofBytes bytes)
    (∀ step ∈ run.steps, ∀ n o, .skipped n o ∈ step.1 → SkippedRun bytes n o) ∧
      ∀ n o, .skipped n o ∈ run.closing →
        (SkippedRun bytes n o ↔
          ∀ name offset present length, .truncated name offset present length ∉ run.closing) ∧
        ∀ name offset present length, .truncated name offset present length ∈ run.closing →
          SkippedRun bytes n offset ∧ o = bytes.length := by
  intro run
  refine ⟨fun step hstep n o hmem => ?_, fun n o hmem => ?_⟩
  · obtain ⟨i, hget⟩ := List.mem_iff_getElem?.mp hstep
    obtain ⟨hitem, hnotices, -⟩ := Feed.pull_take hget
    have hi : i ≤ itemCount bytes := Nat.le_of_lt (List.getElem?_eq_some_iff.mp hget).1
    rw [← hnotices] at hmem
    obtain ⟨hcoherent, -, hlimit⟩ := reading_coherent hi
    obtain ⟨hpos, rfl, rfl⟩ := (hcoherent.skipped_of_item hlimit hitem).2 n o hmem
    exact skippedRun_passing hi hpos
  · obtain ⟨hcoherent, hsource, hlimit⟩ := reading_coherent (Nat.le_refl (itemCount bytes))
    obtain ⟨hitem, hnotices⟩ := Feed.pull_take_length (ofBytes bytes)
    have hrun := skippedRun_passing (Nat.le_refl (itemCount bytes))
    have hclosing : run.closing = (reading bytes (itemCount bytes)).pull.notices := hnotices.symm
    rw [hclosing] at hmem ⊢
    rcases hcoherent.notices_of_end hlimit hitem with hplain | ⟨name, present, length, hcut⟩
    · rw [hplain] at hmem ⊢
      obtain ⟨hpos, rfl, rfl⟩ := mem_skipNotice.mp hmem
      refine ⟨iff_of_true (hrun hpos) fun _ _ _ _ => truncated_notMem_skipNotice, ?_⟩
      exact fun _ _ _ _ htruncated => absurd htruncated truncated_notMem_skipNotice
    · -- The offset has been moved to the end of the data before the bytes are told.
      rw [hcut] at hmem ⊢
      rw [List.mem_cons, or_iff_right nofun] at hmem
      obtain ⟨hpos, rfl, rfl⟩ := mem_skipNotice.mp hmem
      rw [hsource]
      refine ⟨iff_of_false (not_skippedRun_length bytes _) fun hnone => ?_, ?_⟩
      · exact hnone name _ present length List.mem_cons_self
      · intro name' offset present' length' htruncated
        rcases List.mem_cons.mp htruncated with hsame | hskip
        · cases hsame
          exact ⟨hrun hpos, rfl⟩
        · exact absurd hskip truncated_notMem_skipNotice

/-- The run of one byte before the message that is cut short ends at 1, and the notice names 4. -/
theorem skipped_before_cut :
    let bytes : List UInt8 := [0x00, 0xA3, 0x95, 0x80]
    let run := Feed.run (ofBytes bytes)
    .skipped 1 4 ∈ run.notices ∧ ¬ SkippedRun bytes 1 4 ∧ SkippedRun bytes 1 1 := by
  intro bytes run
  have hnone : (Feed.pull (ofBytes bytes)).item = none := rfl
  have hrun : run = { steps := [], closing := (Feed.pull (ofBytes bytes)).notices
                      final := (Feed.pull (ofBytes bytes)).next } := Feed.run_none hnone
  refine ⟨?_, not_skippedRun_length bytes 1, ?_⟩
  · rw [hrun]
    exact List.mem_cons_of_mem _ List.mem_cons_self
  · exact skippedRun_passing (Nat.zero_le _) (by decide)

end DataFlash.BinaryLog
