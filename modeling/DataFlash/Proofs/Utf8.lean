import DataFlash.Text.Utf8
import Mathlib.Tactic.Common

namespace DataFlash.Utf8

/-- The classes of first bytes, by their numbers. -/
theorem start_ofNat (r : Reading) {n : Nat} (h : n < 256) :
    r.start (UInt8.ofNat n) =
      if n < 0x80 then r.push (Char.ofNat n)
      else if n < 0xC2 then r.push replacement
      else if n < 0xE0 then r.await (n - 0xC0) 1 0x80 0xBF
      else if n = 0xE0 then r.await 0 2 0xA0 0xBF
      else if n = 0xED then r.await 0xD 2 0x80 0x9F
      else if n < 0xF0 then r.await (n - 0xE0) 2 0x80 0xBF
      else if n = 0xF0 then r.await 0 3 0x90 0xBF
      else if n < 0xF4 then r.await (n - 0xF0) 3 0x80 0xBF
      else if n = 0xF4 then r.await 4 3 0x80 0x8F
      else r.push replacement := by
  have hn : (UInt8.ofNat n).toNat = n := UInt8.toNat_ofNat_of_lt' h
  simp only [Reading.start, UInt8.lt_iff_toNat_lt, ← UInt8.toNat_inj, hn, UInt8.reduceToNat]

theorem start_one (r : Reading) {n : Nat} (h : n < 0x80) :
    r.start (UInt8.ofNat n) = r.push (Char.ofNat n) := by
  rw [start_ofNat r (by omega), if_pos h]

theorem start_two (r : Reading) {n : Nat} (hlow : 0xC2 ≤ n) (hhigh : n < 0xE0) :
    r.start (UInt8.ofNat n) = r.await (n - 0xC0) 1 0x80 0xBF := by
  rw [start_ofNat r (by omega), if_neg (by omega), if_neg (by omega), if_pos hhigh]

theorem start_three (r : Reading) {n : Nat} (hlow : 0xE0 ≤ n) (hhigh : n < 0xF0) :
    r.start (UInt8.ofNat n) = r.await (n - 0xE0) 2
      (if n = 0xE0 then 0xA0 else 0x80) (if n = 0xED then 0x9F else 0xBF) := by
  rw [start_ofNat r (by omega), if_neg (by omega), if_neg (by omega), if_neg (by omega)]
  by_cases h0 : n = 0xE0
  · simp [h0]
  · by_cases hd : n = 0xED
    · simp [hd]
    · simp [h0, hd, hhigh]

theorem start_four (r : Reading) {n : Nat} (hlow : 0xF0 ≤ n) (hhigh : n ≤ 0xF4) :
    r.start (UInt8.ofNat n) = r.await (n - 0xF0) 3
      (if n = 0xF0 then 0x90 else 0x80) (if n = 0xF4 then 0x8F else 0xBF) := by
  rw [start_ofNat r (by omega), if_neg (by omega), if_neg (by omega), if_neg (by omega),
    if_neg (by omega), if_neg (by omega), if_neg (by omega)]
  by_cases h0 : n = 0xF0
  · simp [h0]
  · by_cases h4 : n = 0xF4
    · simp [h4]
    · have hlt : n < 0xF4 := by omega
      simp [h0, h4, hlt]

theorem step_within (found : List Char) (value more : Nat) {low high : UInt8} {n : Nat}
    (h : n < 64) (hlow : low.toNat ≤ n + 0x80) (hhigh : n + 0x80 ≤ high.toNat) :
    Reading.step { found, pending := .within value more low high } (UInt8.ofNat (n + 0x80)) =
      if more ≤ 1 then { found := Char.ofNat (value * 64 + n) :: found }
      else { found, pending := .within (value * 64 + n) (more - 1) 0x80 0xBF } := by
  have hn : (UInt8.ofNat (n + 0x80)).toNat = n + 0x80 :=
    UInt8.toNat_ofNat_of_lt' (by unfold UInt8.size; omega)
  have hrange : low ≤ UInt8.ofNat (n + 0x80) ∧ UInt8.ofNat (n + 0x80) ≤ high := by
    simp only [UInt8.le_iff_toNat_le, hn]
    exact ⟨hlow, hhigh⟩
  simp only [Reading.step, hrange, and_self, if_true, hn, Nat.add_sub_cancel, Reading.push,
    Reading.await]

theorem step_last (found : List Char) (value : Nat) {low high : UInt8} {n : Nat} {c : Char}
    (h : n < 64) (hlow : low.toNat ≤ n + 0x80) (hhigh : n + 0x80 ≤ high.toNat)
    (hc : Char.ofNat (value * 64 + n) = c) :
    Reading.step { found, pending := .within value 1 low high } (UInt8.ofNat (n + 0x80)) =
      { found := c :: found } := by
  rw [step_within found value 1 h hlow hhigh, if_pos (Nat.le_refl 1), hc]

theorem step_middle (found : List Char) (value more : Nat) {low high : UInt8} {n : Nat}
    (h : n < 64) (hlow : low.toNat ≤ n + 0x80) (hhigh : n + 0x80 ≤ high.toNat) :
    Reading.step { found, pending := .within value (more + 2) low high }
      (UInt8.ofNat (n + 0x80)) =
      { found, pending := .within (value * 64 + n) (more + 1) 0x80 0xBF } := by
  rw [step_within found value _ h hlow hhigh, if_neg (by omega)]
  rfl

/-- The bytes of one character are read as that character. -/
theorem foldl_utf8EncodeChar (found : List Char) (c : Char) :
    (String.utf8EncodeChar c).foldl Reading.step { found } = { found := c :: found } := by
  have hc : Char.ofNat c.val.toNat = c := Char.ofNat_toNat c
  have hvalid : c.val.toNat < 0xD800 ∨ 0xDFFF < c.val.toNat ∧ c.val.toNat < 0x110000 := c.valid
  have hstart : ∀ b, Reading.step { found } b = ({ found } : Reading).start b := fun _ => rfl
  unfold String.utf8EncodeChar
  dsimp only
  generalize c.val.toNat = v at *
  -- One case for each number of bytes, from one to four.
  by_cases h1 : v ≤ 0x7f
  · rw [if_pos h1, List.foldl_cons, List.foldl_nil, hstart, start_one _ (by omega), hc]
    rfl
  by_cases h2 : v ≤ 0x7ff
  · rw [if_neg h1, if_pos h2, List.foldl_cons, List.foldl_cons, List.foldl_nil, hstart,
      start_two _ (by omega) (by omega), Reading.await]
    apply step_last found _ (by omega) (by simp) (by simp; omega)
    rw [← hc]
    congr 1
    omega
  by_cases h3 : v ≤ 0xffff
  · rw [if_neg h1, if_neg h2, if_pos h3, List.foldl_cons, List.foldl_cons, List.foldl_cons,
      List.foldl_nil, hstart, start_three _ (by omega) (by omega), Reading.await]
    rw [step_middle found _ 0 (by omega) (by split <;> simp; omega) (by split <;> simp <;> omega)]
    apply step_last found _ (by omega) (by simp) (by simp; omega)
    rw [← hc]
    congr 1
    omega
  · rw [if_neg h1, if_neg h2, if_neg h3, List.foldl_cons, List.foldl_cons, List.foldl_cons,
      List.foldl_cons, List.foldl_nil, hstart, start_four _ (by omega) (by omega), Reading.await]
    rw [step_middle found _ 1 (by omega) (by split <;> simp; omega) (by split <;> simp <;> omega)]
    rw [step_middle found _ 0 (by omega) (by simp) (by simp; omega)]
    apply step_last found _ (by omega) (by simp) (by simp; omega)
    rw [← hc]
    congr 1
    omega

theorem foldl_flatMap_utf8EncodeChar (found text : List Char) :
    (text.flatMap String.utf8EncodeChar).foldl Reading.step { found } =
      { found := text.reverse ++ found } := by
  induction text generalizing found with
  | nil => rfl
  | cons c text ih =>
    rw [List.flatMap_cons, List.foldl_append, foldl_utf8EncodeChar, ih]
    simp

/-- A text that is written is read back. -/
theorem decode_encode (text : String) : decode (encode text) = text.toList := by
  simp [decode, encode, foldl_flatMap_utf8EncodeChar, Reading.finish]

theorem zero_notMem_utf8EncodeChar {c : Char} (h : c ≠ '\x00') :
    0 ∉ String.utf8EncodeChar c := by
  have hne : ∀ n, n % 256 ≠ 0 → (0 : UInt8) ≠ UInt8.ofNat n := by
    intro n hn he
    have hz := congrArg UInt8.toNat he
    simp at hz
    omega
  have hv : c.val.toNat ≠ 0 := fun h0 => h (Char.ext (UInt32.toNat_inj.mp h0))
  unfold String.utf8EncodeChar
  dsimp only
  generalize c.val.toNat = v at *
  split
  · simpa using hne v (by omega)
  split
  · simp only [List.mem_cons, not_or, List.not_mem_nil, not_false_eq_true, and_true]
    exact ⟨hne _ (by omega), hne _ (by omega)⟩
  split
  · simp only [List.mem_cons, not_or, List.not_mem_nil, not_false_eq_true, and_true]
    exact ⟨hne _ (by omega), hne _ (by omega), hne _ (by omega)⟩
  · simp only [List.mem_cons, not_or, List.not_mem_nil, not_false_eq_true, and_true]
    exact ⟨hne _ (by omega), hne _ (by omega), hne _ (by omega), hne _ (by omega)⟩

theorem zero_notMem_encode {text : String} (h : '\x00' ∉ text.toList) : 0 ∉ encode text := by
  intro hmem
  obtain ⟨c, hc, h0⟩ := List.mem_flatMap.mp hmem
  exact zero_notMem_utf8EncodeChar (fun he => h (he ▸ hc)) h0

end DataFlash.Utf8
