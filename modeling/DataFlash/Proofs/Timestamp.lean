import DataFlash.Proofs.Numeral
import DataFlash.Timestamp

namespace DataFlash

theorem isDigit_of_mem_paddedDigits {width n : Nat} {c : Char} (h : c ∈ paddedDigits width n) :
    c.isDigit = true := by
  rcases List.mem_append.mp h with hzero | hdigit
  · rw [List.eq_of_mem_replicate hzero]
    rfl
  · exact Nat.isDigit_of_mem_toDigits (by omega) (by omega) hdigit

theorem paddedDigits_ne_nil (width n : Nat) : paddedDigits width n ≠ [] := by
  have hdigits : decimalDigits n ≠ [] := Nat.toDigits_ne_nil
  simp [paddedDigits, hdigits]

theorem notMem_paddedDigits {c : Char} (h : c.isDigit = false) (width n : Nat) :
    c ∉ paddedDigits width n := by
  intro hmem
  rw [isDigit_of_mem_paddedDigits hmem] at h
  cases h

theorem Numeral.notMem_toString_int {c : Char} (h : c.isDigit = false) (hminus : c ≠ '-')
    (n : Int) : c ∉ (toString n).toList := by
  have hdigits : c ∉ Nat.toDigits 10 n.natAbs := by
    intro hmem
    rw [Nat.isDigit_of_mem_toDigits (by omega) (by omega) hmem] at h
    cases h
  rw [Numeral.toList_toString_int]
  split
  · simp [hminus, hdigits]
  · exact hdigits

namespace Timestamp

theorem notMem_yearText {c : Char} (h : c.isDigit = false) (hminus : c ≠ '-') (hplus : c ≠ '+')
    (year : Int) : c ∉ yearText year := by
  unfold yearText
  split
  · exact notMem_paddedDigits h _ _
  · split <;> simp [hminus, hplus, notMem_paddedDigits h]

/-- The colons of a date stand before its minutes and its seconds. -/
theorem exists_dateText_eq (seconds : Int) : ∃ front minute second, ':' ∉ front ∧
    dateText seconds = front ++ ':' :: paddedDigits 2 minute ++ ':' :: paddedDigits 2 second := by
  have hdigit : ':'.isDigit = false := rfl
  have hyear := notMem_yearText hdigit (by decide) (by decide)
  refine ⟨_, _, _, ?_, by rw [dateText, List.append_assoc _ [':'], List.append_assoc _ [':']]; rfl⟩
  simp [hyear, notMem_paddedDigits hdigit]

theorem feed_notMem_text (time : Float) : '\n' ∉ (text time).toList := by
  have hdigit : '\n'.isDigit = false := rfl
  have hyear := notMem_yearText hdigit (by decide) (by decide)
  have hnumber := Numeral.notMem_toString_int hdigit (by decide)
  simp only [text, String.toList_ofList, List.mem_append, not_or, notMem_paddedDigits hdigit]
  refine ⟨⟨?_, by decide⟩, not_false⟩
  unfold secondText
  split
  · simp [dateText, hyear, notMem_paddedDigits hdigit]
  · exact hnumber _

end Timestamp

end DataFlash
