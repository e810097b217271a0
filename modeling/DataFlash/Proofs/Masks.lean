import DataFlash.Power.Flags
import Mathlib.Tactic.Common

namespace DataFlash

namespace BitChange

/-- A mask after a change. Only a clear bit can be set, and only a set bit cleared. -/
def applied? (mask : UInt32) : BitChange → Option UInt32
  | set bit =>
    if mask.toBitVec.getLsbD bit then none else some ⟨mask.toBitVec ||| BitVec.twoPow 32 bit⟩
  | cleared bit =>
    if mask.toBitVec.getLsbD bit then some ⟨mask.toBitVec &&& ~~~BitVec.twoPow 32 bit⟩ else none

variable {mask : UInt32} {bit : Nat}

theorem applied?_set (hbit : bit < flagBits) (h : mask.toBitVec.getLsbD bit = false) :
    ∃ next, (set bit).applied? mask = some next ∧ ∀ other,
      next.toBitVec.getLsbD other = if other = bit then true else mask.toBitVec.getLsbD other := by
  have h32 : bit < 32 := hbit
  refine ⟨⟨mask.toBitVec ||| BitVec.twoPow 32 bit⟩, by simp [applied?, h], fun other => ?_⟩
  by_cases hother : other = bit
  · simp [hother, h32]
  · simp [hother, Ne.symm hother]

theorem applied?_cleared (h : mask.toBitVec.getLsbD bit = true) :
    ∃ next, (cleared bit).applied? mask = some next ∧ ∀ other,
      next.toBitVec.getLsbD other = if other = bit then false else mask.toBitVec.getLsbD other := by
  refine ⟨⟨mask.toBitVec &&& ~~~BitVec.twoPow 32 bit⟩, by simp [applied?, h], fun other => ?_⟩
  have h32 : mask.toBitVec.getLsbD other = true → other < 32 := BitVec.lt_of_getLsbD
  by_cases hother : other = bit
  · simp [hother]
  · simpa [hother, Ne.symm hother] using h32

end BitChange

namespace FlagDiff

variable (d : FlagDiff) {bit : Nat}

theorem change?_eq_none (h : d.previous.toBitVec.getLsbD bit = d.current.toBitVec.getLsbD bit) :
    d.change? bit = none := by
  unfold change?
  rw [h]
  cases d.current.toBitVec.getLsbD bit <;> rfl

/-- The change of a bit that differs can be applied where the bit is still as it was, and then that
bit alone is as it is now. -/
theorem change?_eq_some (hbit : bit < flagBits)
    (h : d.previous.toBitVec.getLsbD bit ≠ d.current.toBitVec.getLsbD bit) {mask : UInt32}
    (hmask : mask.toBitVec.getLsbD bit = d.previous.toBitVec.getLsbD bit) :
    ∃ change next, d.change? bit = some change ∧ change.applied? mask = some next ∧
      ∀ other, next.toBitVec.getLsbD other =
        if other = bit then d.current.toBitVec.getLsbD bit else mask.toBitVec.getLsbD other := by
  unfold change?
  cases hprevious : d.previous.toBitVec.getLsbD bit with
  | false =>
    have hcurrent : d.current.toBitVec.getLsbD bit = true := by simpa [hprevious] using h
    obtain ⟨next, happly, hnext⟩ := BitChange.applied?_set hbit (hmask.trans hprevious)
    rw [hcurrent]
    exact ⟨.set bit, next, rfl, happly, hnext⟩
  | true =>
    have hcurrent : d.current.toBitVec.getLsbD bit = false := by simpa [hprevious] using h
    obtain ⟨next, happly, hnext⟩ := BitChange.applied?_cleared (hmask.trans hprevious)
    rw [hcurrent]
    exact ⟨.cleared bit, next, rfl, happly, hnext⟩

theorem bit_of_change? {change : BitChange} (h : d.change? bit = some change) :
    change.bit = bit := by
  unfold change? at h
  split at h <;> cases h <;> rfl

theorem mem_changes {change : BitChange} :
    change ∈ d.changes ↔ change.bit < flagBits ∧ d.change? change.bit = some change := by
  rw [changes, List.mem_filterMap]
  constructor
  · rintro ⟨bit, hbit, hchange⟩
    rw [d.bit_of_change? hchange]
    exact ⟨List.mem_range.mp hbit, hchange⟩
  · rintro ⟨hbit, hchange⟩
    exact ⟨change.bit, List.mem_range.mpr hbit, hchange⟩

theorem bit_lt_of_mem_changes {d : FlagDiff} {change : BitChange} (h : change ∈ d.changes) :
    change.bit < flagBits := (d.mem_changes.mp h).1

theorem differs_of_change? {change : BitChange} (h : d.change? bit = some change) :
    d.previous.toBitVec.getLsbD bit ≠ d.current.toBitVec.getLsbD bit := by
  intro hsame
  rw [d.change?_eq_none hsame] at h
  cases h

theorem mem_bits_iff (hbit : bit < flagBits) : bit ∈ d.changes.map BitChange.bit ↔
    d.previous.toBitVec.getLsbD bit ≠ d.current.toBitVec.getLsbD bit := by
  rw [List.mem_map]
  constructor
  · rintro ⟨change, hmem, rfl⟩
    exact d.differs_of_change? (d.mem_changes.mp hmem).2
  · intro hdiffers
    obtain ⟨change, -, hchange, -⟩ := d.change?_eq_some hbit hdiffers rfl
    obtain rfl := d.bit_of_change? hchange
    exact ⟨change, d.mem_changes.mpr ⟨hbit, hchange⟩, rfl⟩

theorem pairwise_bits : (d.changes.map BitChange.bit).Pairwise (· < ·) := by
  have hbits : d.changes.map BitChange.bit =
      (List.range flagBits).filter fun bit => (d.change? bit).isSome := by
    rw [changes, List.map_filterMap, ← List.filterMap_eq_filter]
    congr 1
    funext bit
    cases hchange : d.change? bit with
    | none => simp [Option.guard, hchange]
    | some change => simp [Option.guard, hchange, d.bit_of_change? hchange]
  rw [hbits]
  exact List.pairwise_lt_range.filter _

/-- Changes of different bits, in whatever order, lead from a mask with these bits as they were to
one with these bits as they are now and the others as in the mask. -/
theorem exists_foldlM {changes : List BitChange} (hmem : ∀ change ∈ changes, change ∈ d.changes)
    (hdistinct : (changes.map BitChange.bit).Nodup) {mask : UInt32}
    (hmask : ∀ change ∈ changes,
      mask.toBitVec.getLsbD change.bit = d.previous.toBitVec.getLsbD change.bit) :
    ∃ final, changes.foldlM BitChange.applied? mask = some final ∧
      ∀ bit, final.toBitVec.getLsbD bit = if bit ∈ changes.map BitChange.bit
        then d.current.toBitVec.getLsbD bit else mask.toBitVec.getLsbD bit := by
  induction changes generalizing mask with
  | nil => exact ⟨mask, rfl, by simp⟩
  | cons change changes ih =>
    rw [List.forall_mem_cons] at hmem hmask
    rw [List.map_cons, List.nodup_cons] at hdistinct
    obtain ⟨hbit, hchange⟩ := d.mem_changes.mp hmem.1
    obtain ⟨change', next, hchange', happly, hnext⟩ :=
      d.change?_eq_some hbit (d.differs_of_change? hchange) hmask.1
    obtain rfl : change' = change := Option.some.inj (hchange'.symm.trans hchange)
    -- The other bits are still as they were when this one has changed.
    have hkept : ∀ other ∈ changes,
        next.toBitVec.getLsbD other.bit = d.previous.toBitVec.getLsbD other.bit := by
      intro other hother
      have hne : other.bit ≠ change'.bit :=
        fun hsame => hdistinct.1 (hsame ▸ List.mem_map_of_mem hother)
      rw [hnext, if_neg hne, hmask.2 other hother]
    obtain ⟨final, hfold, hfinal⟩ := ih hmem.2 hdistinct.2 hkept
    refine ⟨final, by simp [happly, hfold], fun bit => ?_⟩
    rw [hfinal, hnext, List.map_cons]
    by_cases hsame : bit = change'.bit
    · subst hsame
      simp
    · simp [hsame]

/-- In whatever order they are applied, the changes lead to the current mask. -/
theorem foldlM_of_perm {order : List BitChange} (h : order.Perm d.changes) :
    order.foldlM BitChange.applied? d.previous = some d.current := by
  have hdistinct : (d.changes.map BitChange.bit).Nodup := d.pairwise_bits.imp Nat.ne_of_lt
  obtain ⟨final, hfold, hfinal⟩ := d.exists_foldlM (fun change hmem => h.mem_iff.mp hmem)
    ((h.map _).nodup_iff.mpr hdistinct) fun _ _ => Eq.refl (d.previous.toBitVec.getLsbD _)
  have hcurrent : final = d.current := by
    apply UInt32.toBitVec_inj.mp
    apply BitVec.eq_of_getLsbD_eq
    intro bit hbit
    rw [hfinal]
    split
    · rfl
    · next hsame =>
      exact not_ne_iff.mp fun hne => hsame ((h.map _).mem_iff.mpr ((d.mem_bits_iff hbit).mpr hne))
  rw [hfold, hcurrent]

theorem foldlM_changes : d.changes.foldlM BitChange.applied? d.previous = some d.current :=
  d.foldlM_of_perm (List.Perm.refl _)

theorem getLsbD_and_not (mask other : UInt32) (bit : Nat) :
    (mask &&& ~~~other).toBitVec.getLsbD bit =
      (mask.toBitVec.getLsbD bit && !other.toBitVec.getLsbD bit) := by
  have hroom : mask.toBitVec.getLsbD bit = true → bit < 32 := BitVec.lt_of_getLsbD
  rw [UInt32.toBitVec_and, UInt32.toBitVec_not, BitVec.getLsbD_and, BitVec.getLsbD_not]
  cases h : mask.toBitVec.getLsbD bit with
  | false => rfl
  | true => simp [hroom h]

theorem set_mem_changes : .set bit ∈ d.changes ↔
    (d.current &&& ~~~d.previous).toBitVec.getLsbD bit = true := by
  have hroom : d.current.toBitVec.getLsbD bit = true → bit < flagBits := BitVec.lt_of_getLsbD
  rw [mem_changes, getLsbD_and_not, BitChange.bit, change?]
  cases hp : d.previous.toBitVec.getLsbD bit <;> cases hc : d.current.toBitVec.getLsbD bit <;>
    simp_all

theorem cleared_mem_changes : .cleared bit ∈ d.changes ↔
    (d.previous &&& ~~~d.current).toBitVec.getLsbD bit = true := by
  have hroom : d.previous.toBitVec.getLsbD bit = true → bit < flagBits := BitVec.lt_of_getLsbD
  rw [mem_changes, getLsbD_and_not, BitChange.bit, change?]
  cases hp : d.previous.toBitVec.getLsbD bit <;> cases hc : d.current.toBitVec.getLsbD bit <;>
    simp_all

theorem changes_eq_nil_iff : d.changes = [] ↔ d.previous = d.current := by
  constructor
  · intro hnone
    have hfold := d.foldlM_changes
    rw [hnone] at hfold
    exact Option.some.inj hfold
  · intro hsame
    rw [List.eq_nil_iff_forall_not_mem]
    intro change hmem
    exact d.differs_of_change? (d.mem_changes.mp hmem).2 (by rw [hsame])

end FlagDiff

namespace FlagTracker

def seen (masks : List UInt32) : FlagTracker :=
  masks.foldl (fun tracker mask => (tracker.observe mask).2) {}

theorem seen_append (masks : List UInt32) (mask : UInt32) :
    seen (masks ++ [mask]) = ((seen masks).observe mask).2 := by
  rw [seen, List.foldl_append]
  rfl

theorem current_seen (masks : List UInt32) : (seen masks).current = masks.getLast? := by
  rcases List.eq_nil_or_concat masks with rfl | ⟨earlier, last, rfl⟩
  · rfl
  · rw [List.concat_eq_append, seen_append, List.getLast?_concat]
    rfl

end FlagTracker

/-- The changes between two masks are in ascending order of their bits, of which there are 32. They
set the bits of the current mask that are not in the previous one and clear those of the previous
mask that are not in the current one. There are none exactly between equal masks, and applied in any
order they lead from the previous mask to the current one. Whatever masks a tracker has seen, it
holds the next one, and tells its difference from the last of them, from 0 if there was none, unless
it is the same. -/
theorem changes_exact (d : FlagDiff) (masks : List UInt32) (mask : UInt32) :
    ((d.changes.map BitChange.bit).Pairwise (· < ·) ∧ ∀ change ∈ d.changes, change.bit < 32) ∧
      (∀ bit, .set bit ∈ d.changes ↔
        (d.current &&& ~~~d.previous).toBitVec.getLsbD bit = true) ∧
      (∀ bit, .cleared bit ∈ d.changes ↔
        (d.previous &&& ~~~d.current).toBitVec.getLsbD bit = true) ∧
      (d.changes = [] ↔ d.previous = d.current) ∧
      (∀ order : List BitChange, order.Perm d.changes →
        order.foldlM BitChange.applied? d.previous = some d.current) ∧
      (FlagTracker.seen (masks ++ [mask])).current = some mask ∧
      let last := masks.getLast?.getD 0
      ((FlagTracker.seen masks).observe mask).1 =
        if mask = last then none else some { previous := last, current := mask } := by
  refine ⟨⟨d.pairwise_bits, fun _ => FlagDiff.bit_lt_of_mem_changes⟩, fun _ => d.set_mem_changes,
    fun _ => d.cleared_mem_changes, d.changes_eq_nil_iff, fun _ => d.foldlM_of_perm, ?_, ?_⟩
  · rw [FlagTracker.current_seen, List.getLast?_concat]
  · intro last
    rw [FlagTracker.observe, FlagTracker.current_seen]
    simp only [eq_comm, last]

end DataFlash
