import DataFlash.Number.Numeral
import DataFlash.Proofs.Lines
import Mathlib.Tactic.Common

namespace DataFlash.Numeral

theorem natural?_toDigits (n : Nat) : natural? (Nat.toDigits 10 n) = some n := by
  have hall : (Nat.toDigits 10 n).all Char.isDigit = true := by
    rw [List.all_eq_true]
    intro c hc
    exact Nat.isDigit_of_mem_toDigits (by omega) (by omega) hc
  have hof : ofDigits (Nat.toDigits 10 n) = n := Nat.ofDigitChars_ten_toDigits
  rw [natural?, if_pos ⟨Nat.toDigits_ne_nil, hall⟩, hof]

theorem toDigits_eq_cons (n : Nat) :
    ∃ c rest, Nat.toDigits 10 n = c :: rest ∧ c ≠ '-' ∧ c ≠ '+' := by
  cases h : Nat.toDigits 10 n with
  | nil => exact absurd h Nat.toDigits_ne_nil
  | cons c rest =>
    have hc : c.isDigit = true :=
      Nat.isDigit_of_mem_toDigits (b := 10) (n := n) (by omega) (by omega) (by simp [h])
    refine ⟨c, rest, rfl, ?_, ?_⟩
    · rintro rfl
      simp at hc
    · rintro rfl
      simp at hc

theorem sign_toDigits (n : Nat) : sign (Nat.toDigits 10 n) = (false, Nat.toDigits 10 n) := by
  obtain ⟨c, rest, h, hminus, hplus⟩ := toDigits_eq_cons n
  rw [h]
  unfold sign
  split
  · simp_all
  · simp_all
  · rfl

theorem toList_toString_int (n : Int) : (toString n).toList =
    if n < 0 then '-' :: Nat.toDigits 10 n.natAbs else Nat.toDigits 10 n.natAbs := by
  cases n with
  | ofNat n => simp [Int.toString_eq_repr, Int.repr]
  | negSucc n => simp [Int.toString_eq_repr, Int.repr, Int.negSucc_lt_zero]

theorem integer?_toString (n : Int) : integer? (toString n).toList = some n := by
  rw [toList_toString_int]
  by_cases h : n < 0
  · have hn : -(n.natAbs : Int) = n := by omega
    simp only [h, if_true, integer?, sign, natural?_toDigits, bind, Option.bind, hn]
  · have hn : (n.natAbs : Int) = n := by omega
    simp only [h, if_false, integer?, sign_toDigits, natural?_toDigits, bind, Option.bind, hn,
      Bool.false_eq_true]

theorem signed?_toString (n : Int64) : signed? (toString n.toInt).toList = some n := by
  have hrange : Int64.minValue.toInt ≤ n.toInt ∧ n.toInt ≤ Int64.maxValue.toInt :=
    ⟨n.minValue_le_toInt, n.toInt_le⟩
  simp only [signed?, integer?_toString, bind, Option.bind, if_pos hrange, Int64.ofInt_toInt]

theorem unsigned?_toString (n : UInt64) : unsigned? (toString n.toNat).toList = some n := by
  obtain ⟨c, rest, h, -, hplus⟩ := toDigits_eq_cons n.toNat
  have htext : (toString n.toNat).toList = c :: rest := by simp [h]
  have hnatural : natural? (c :: rest) = some n.toNat := h ▸ natural?_toDigits n.toNat
  have hunsigned : unsigned? (c :: rest) = (natural? (c :: rest)).bind fun n =>
      if n < UInt64.size then some (UInt64.ofNat n) else none := by
    unfold unsigned?
    split
    · simp_all
    · rfl
  rw [htext, hunsigned, hnatural, Option.bind_some, if_pos n.toNat_lt_size, UInt64.ofNat_toNat]

theorem not_isBlank_of_isDigit {c : Char} (h : c.isDigit = true) : Text.isBlank c = false := by
  simp only [Char.isDigit, Bool.and_eq_true, decide_eq_true_eq] at h
  have hlow : 48 ≤ c.toNat := UInt32.le_iff_toNat_le.mp h.1
  have hhigh : c.toNat ≤ 57 := UInt32.le_iff_toNat_le.mp h.2
  simp [Text.isBlank]
  omega

theorem clean_toDigits (n : Nat) : Text.Clean (Nat.toDigits 10 n) := by
  apply Text.clean_of_forall
  intro c hc
  have hdigit : c.isDigit = true := Nat.isDigit_of_mem_toDigits (by omega) (by omega) hc
  refine ⟨not_isBlank_of_isDigit hdigit, ?_⟩
  rintro rfl
  exact absurd hdigit (by decide)

theorem clean_toString_nat (n : Nat) : Text.Clean (toString n).toList := by
  have htext : (toString n).toList = Nat.toDigits 10 n := by simp
  rw [htext]
  exact clean_toDigits n

theorem clean_toString_int (n : Int) : Text.Clean (toString n).toList := by
  rw [toList_toString_int]
  by_cases h : n < 0
  · have hd := clean_toDigits n.natAbs
    rw [if_pos h]
    refine { comma := ?_, feed := ?_, head := ?_, last := ?_ }
    · simpa using hd.comma
    · simpa using hd.feed
    · simp [Text.isBlank]
    · rw [List.getLast?_cons_of_ne_nil Nat.toDigits_ne_nil]
      exact hd.last
  · rw [if_neg h]
    exact clean_toDigits n.natAbs

end DataFlash.Numeral
