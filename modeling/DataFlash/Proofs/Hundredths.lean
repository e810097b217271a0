import DataFlash.Proofs.Instants
import Mathlib.Data.Rat.Floor
import Mathlib.Tactic.FieldSimp
import Mathlib.Tactic.Linarith
import Mathlib.Tactic.NormNum
import Mathlib.Tactic.Push

namespace DataFlash

namespace Binary64

/-- The number that a finite double stands for. -/
def value? : Binary64 → Option ℚ
  | nan | infinite _ => none
  | finite negative significand exponent =>
    some ((if negative then -1 else 1) * significand * 2 ^ exponent)

variable {negative : Bool} {significand : Nat} {exponent : Int}

theorem value?_finite : (finite negative significand exponent).value? =
    some ((numerator negative significand exponent : ℚ) / (twoTo (-exponent).toNat : ℚ)) := by
  have hpower : (2 : ℚ) ^ exponent = twoTo exponent.toNat / twoTo (-exponent).toNat := by
    have htwo (n : Nat) : (twoTo n : ℚ) = 2 ^ n := Nat.cast_pow 2 n
    rw [htwo, htwo]
    rcases Int.le_total 0 exponent with h | h
    · obtain ⟨n, rfl⟩ := Int.eq_ofNat_of_zero_le h
      simp
    · obtain ⟨n, hn⟩ := Int.exists_eq_neg_ofNat h
      subst hn
      simp
  rw [value?, hpower, numerator, ← mul_div_assoc]
  cases negative <;> simp

def Fits (n : Int) : Prop := Int64.minValue.toInt ≤ n ∧ n ≤ Int64.maxValue.toInt

variable {x : Float} {v : ℚ}

/-- Any division with a finite double comes to that of its numerator and its denominator. -/
theorem exists_quotient (h : (ofFloat x).value? = some v) : ∃ (num : Int) (den : Nat),
    0 < den ∧ v = (num : ℚ) / (den : ℚ) ∧
      ∀ divide, (ofFloat x).toInt64 divide = Int64.ofIntClamp (divide num den) := by
  cases hx : ofFloat x with
  | nan => simp [hx, value?] at h
  | infinite => simp [hx, value?] at h
  | finite negative significand exponent =>
    rw [hx, value?_finite] at h
    exact ⟨_, _, Nat.pow_pos (by omega), (Option.some.inj h).symm, fun _ => rfl⟩

theorem toInt_floored (h : (ofFloat x).value? = some v) (hfits : Fits ⌊v⌋) :
    (floored x).toInt = ⌊v⌋ := by
  obtain ⟨num, den, -, rfl, hdivide⟩ := exists_quotient h
  have hquotient : num.fdiv den = ⌊(num : ℚ) / (den : ℚ)⌋ := by
    rw [Int.fdiv_eq_ediv_of_nonneg _ (Int.natCast_nonneg den), Rat.floor_intCast_div_natCast]
  rw [floored, hdivide, hquotient]
  exact Int64.toInt_ofIntClamp hfits.1 hfits.2

def towardZero (v : ℚ) : Int := if 0 ≤ v then ⌊v⌋ else ⌈v⌉

theorem toInt_truncated (h : (ofFloat x).value? = some v) (hfits : Fits (towardZero v)) :
    (truncated x).toInt = towardZero v := by
  obtain ⟨num, den, hden, rfl, hdivide⟩ := exists_quotient h
  have hquotient : num.tdiv den = towardZero ((num : ℚ) / (den : ℚ)) := by
    unfold towardZero
    rcases lt_or_ge num 0 with hneg | hpos
    · have hbelow : (num : ℚ) / (den : ℚ) < 0 :=
        div_neg_of_neg_of_pos (Int.cast_lt_zero.mpr hneg) (Nat.cast_pos.mpr hden)
      rw [if_neg (not_le.mpr hbelow), Rat.ceil_intCast_div_natCast,
        ← Int.tdiv_eq_ediv_of_nonneg (by omega), Int.neg_tdiv, Int.neg_neg]
    · have habove : 0 ≤ (num : ℚ) / (den : ℚ) :=
        div_nonneg (Int.cast_nonneg hpos) (Nat.cast_nonneg den)
      rw [if_pos habove, Rat.floor_intCast_div_natCast, Int.tdiv_eq_ediv_of_nonneg hpos]
  rw [truncated, hdivide, hquotient]
  exact Int64.toInt_ofIntClamp hfits.1 hfits.2

end Binary64

namespace Timestamp

/-- A number lies in one of the hundredths past a whole number: not before it and before the next
one. -/
def Within (v : ℚ) (seconds : Int) (n : Nat) : Prop :=
  (seconds : ℚ) + n / 100 ≤ v ∧ v < seconds + (n + 1) / 100

theorem within_iff {v : ℚ} {seconds : Int} {n : Nat} :
    Within v seconds n ↔ ⌊v * 100⌋ = 100 * seconds + n := by
  rw [Int.floor_eq_iff, Within]
  push_cast
  constructor
  · rintro ⟨hle, hlt⟩
    constructor <;> linarith
  · rintro ⟨hle, hlt⟩
    constructor <;> linarith

theorem floor_mul_hundred (v : ℚ) :
    100 * ⌊v⌋ ≤ ⌊v * 100⌋ ∧ ⌊v * 100⌋ < 100 * ⌊v⌋ + 100 := by
  have hle := Int.floor_le v
  have hlt := Int.lt_floor_add_one v
  constructor
  · rw [Int.le_floor]
    push_cast
    linarith
  · rw [Int.floor_lt]
    push_cast
    linarith

/-- Toward zero is down where it is up to no other whole number. -/
theorem towardZero_eq_floor {v : ℚ} (h : 0 ≤ v ∨ ∃ k : Int, v = k) :
    Binary64.towardZero v = ⌊v⌋ := by
  unfold Binary64.towardZero
  split
  · rfl
  · next hneg =>
    obtain ⟨k, rfl⟩ := h.resolve_left hneg
    rw [Int.ceil_intCast, Int.floor_intCast]

theorem towardZero_eq_floor_add_one {v : ℚ} (h : ¬ (0 ≤ v ∨ ∃ k : Int, v = k)) :
    Binary64.towardZero v = ⌊v⌋ + 1 := by
  obtain ⟨hneg, hwhole⟩ := not_or.mp h
  rw [Binary64.towardZero, if_neg hneg, Int.ceil_eq_floor_add_one_iff_notMem]
  rintro ⟨k, hk⟩
  exact hwhole ⟨k, hk.symm⟩

/-- The text of a time is the date of a second and hundredths past it. -/
def Writes (time : Float) (seconds : Int) (n : Nat) : Prop :=
  n < 100 ∧ text time = String.ofList (dateText seconds ++ ['.'] ++ paddedDigits 2 n)

theorem writes_iff {time : Float} {seconds : Int} {n : Nat}
    (hdated : firstDated ≤ second time ∧ second time ≤ lastDated) :
    Writes time seconds n ↔ seconds = second time ∧ n = hundredths time := by
  have hdate : secondText (second time) = dateText (second time) := if_pos hdated
  constructor
  · rintro ⟨hn, htext⟩
    obtain ⟨hsecond, hhundredths⟩ := (text_eq_parts_iff hn).mp htext
    rw [hdate] at hsecond
    exact ⟨(dateText_injective hsecond).symm, hhundredths.symm⟩
  · rintro ⟨rfl, rfl⟩
    exact ⟨hundredths_lt time, (text_eq_parts_iff (hundredths_lt time)).mpr ⟨hdate, rfl⟩⟩

/-- There is room in 64 bits for the hundredths of every second that has a date. -/
theorem fits_of_dated {n : Int} (hfirst : 100 * firstDated ≤ n)
    (hlast : n ≤ 100 * lastDated + 100) : Binary64.Fits n := by
  have hmin : Int64.minValue.toInt = -9223372036854775808 := rfl
  have hmax : Int64.maxValue.toInt = 9223372036854775807 := rfl
  unfold firstDated at hfirst
  unfold lastDated at hlast
  unfold Binary64.Fits
  omega

/-- Where a hundred times a time is exact, the time is written as the date of a second and the
hundredths past it. If the time is not negative or is a whole number of hundredths, what is written
is the greatest hundredth not after it. Otherwise that is the hundredth before the one that is
written, which is the last of the second where the first is written. -/
theorem written_hundredth {time : Float} {v : ℚ} (hvalue : (Binary64.ofFloat time).value? = some v)
    (hexact : (Binary64.ofFloat (time * 100)).value? = some (v * 100))
    (hdated : firstDated ≤ ⌊v⌋ ∧ ⌊v⌋ ≤ lastDated) :
    (∃ seconds n, Writes time seconds n) ∧ ∀ seconds n, Writes time seconds n →
      ((0 ≤ v ∨ ∃ k : Int, v * 100 = k) → Within v seconds n) ∧
        (¬ (0 ≤ v ∨ ∃ k : Int, v * 100 = k) → Within v seconds ((n + 99) % 100)) := by
  obtain ⟨hlow, hhigh⟩ := floor_mul_hundred v
  obtain ⟨hfirst, hlast⟩ := hdated
  have hsecond : second time = ⌊v⌋ := by
    refine Binary64.toInt_floored hvalue (fits_of_dated ?_ ?_)
    · unfold firstDated at *
      omega
    · unfold lastDated at *
      omega
  have hwrites (seconds : Int) (n : Nat) := @writes_iff time seconds n (hsecond ▸ ⟨hfirst, hlast⟩)
  refine ⟨⟨_, _, (hwrites _ _).mpr ⟨rfl, rfl⟩⟩, fun seconds n h => ?_⟩
  obtain ⟨rfl, rfl⟩ := (hwrites seconds n).mp h
  have hsign : 0 ≤ v * 100 ↔ 0 ≤ v := by constructor <;> intro <;> linarith
  rw [← hsign, within_iff, within_iff, hsecond, hundredths]
  constructor
  · intro hdown
    have hfloor := towardZero_eq_floor hdown
    rw [Binary64.toInt_truncated hexact (fits_of_dated (by omega) (by omega)), hfloor]
    omega
  · intro hup
    have hceil := towardZero_eq_floor_add_one hup
    rw [Binary64.toInt_truncated hexact (fits_of_dated (by omega) (by omega)), hceil]
    omega

/-- 65 parts of 256 before the start of the count the hundredth 75 of the last second is written,
and the time lies in the hundredth 74. -/
theorem written_hundredth_quarter :
    let time := Float.ofBits 0xBFD0400000000000
    (Binary64.ofFloat time).value? = some (-65 / 256) ∧
      (Binary64.ofFloat (time * 100)).value? = some (-65 / 256 * 100) ∧
      text time = "1969-12-31 23:59:59.75" ∧ Writes time (-1) 75 ∧ Within (-65 / 256) (-1) 74 := by
  intro time
  have hbits : Binary64.ofFloat time = .finite true 4573968371548160 (-54) := by decide +kernel
  have hbits' : Binary64.ofFloat (time * 100) = .finite true 7146825580544000 (-48) := by
    decide +kernel
  have hvalue : (Binary64.ofFloat time).value? = some (-65 / 256) := by
    norm_num [hbits, Binary64.value?]
  have hexact : (Binary64.ofFloat (time * 100)).value? = some (-65 / 256 * 100) := by
    norm_num [hbits', Binary64.value?]
  have hfloor : ⌊(-65 / 256 : ℚ)⌋ = -1 := by norm_num [Int.floor_eq_iff]
  have hwrites : Writes time (-1) 75 := ⟨by decide, by decide +kernel⟩
  have hup : ¬ (0 ≤ (-65 / 256 : ℚ) ∨ ∃ k : Int, (-65 / 256 * 100 : ℚ) = k) := by
    rintro (hpos | ⟨k, hk⟩)
    · norm_num at hpos
    · have hwhole : (-1625 : Int) = 64 * k := by
        have : (-1625 : ℚ) = 64 * k := by linarith
        exact_mod_cast this
      omega
  obtain ⟨-, hall⟩ := written_hundredth hvalue hexact (hfloor ▸ by decide)
  exact ⟨hvalue, hexact, by decide +kernel, hwrites, (hall (-1) 75 hwrites).2 hup⟩

/-- One part of 512 before the start of the count the first hundredth of the last second is written.
The time is less than a hundredth before the end of that second. -/
theorem written_hundredth_wraps :
    let time := Float.ofBits 0xBF60000000000000
    (Binary64.ofFloat time).value? = some (-1 / 512) ∧
      (Binary64.ofFloat (time * 100)).value? = some (-1 / 512 * 100) ∧
      (firstDated ≤ ⌊(-1 / 512 : ℚ)⌋ ∧ ⌊(-1 / 512 : ℚ)⌋ ≤ lastDated) ∧
      text time = "1969-12-31 23:59:59.00" ∧ Writes time (-1) 0 ∧ ¬ Within (-1 / 512) (-1) 0 := by
  intro time
  have hbits : Binary64.ofFloat time = .finite true 4503599627370496 (-61) := by decide +kernel
  have hbits' : Binary64.ofFloat (time * 100) = .finite true 7036874417766400 (-55) := by
    decide +kernel
  have hfloor : ⌊(-1 / 512 : ℚ)⌋ = -1 := by norm_num [Int.floor_eq_iff]
  refine ⟨?_, ?_, hfloor ▸ by decide, by decide +kernel, ⟨by decide, by decide +kernel⟩, ?_⟩
  · norm_num [hbits, Binary64.value?]
  · norm_num [hbits', Binary64.value?]
  · norm_num [Within]

end Timestamp

end DataFlash
