import DataFlash.Calendar
import Mathlib.Tactic.Common

namespace DataFlash.Calendar

def yearLength (leap : Bool) : Nat := if leap then 366 else 365

theorem daysBefore_succ (year : Int) :
    daysBefore (year + 1) = daysBefore year + yearLength (isLeap year) := by
  unfold daysBefore
  by_cases h : isLeap year = true
  · have hyear : yearLength (isLeap year) = 366 := by simp [yearLength, h]
    simp only [isLeap, Bool.and_eq_true, Bool.or_eq_true, beq_iff_eq, bne_iff_ne] at h
    omega
  · have hyear : yearLength (isLeap year) = 365 := by simp [yearLength, h]
    simp only [isLeap, Bool.and_eq_true, Bool.or_eq_true, beq_iff_eq, bne_iff_ne] at h
    omega

/-- A day falls in its year. -/
theorem daysBefore_yearOf (day : Int) :
    daysBefore (yearOf day) ≤ day ∧ day < daysBefore (yearOf day + 1) := by
  unfold yearOf
  dsimp only
  split
  · rw [Int.sub_add_cancel]
    unfold daysBefore at *
    omega
  · unfold daysBefore at *
    split <;> omega

/-- The days of some months of these lengths and of the next one before a day of it. -/
def dayOfYear : List Nat → Nat → Nat → Nat
  | length :: rest, months + 1, day => length + dayOfYear rest months day
  | [], _, day | _ :: _, 0, day => day - 1

theorem le_monthDay (lengths : List Nat) (month day : Nat) :
    month ≤ (monthDay lengths month day).1 := by
  induction lengths generalizing month day with
  | nil => exact Nat.le_refl month
  | cons length rest ih =>
    unfold monthDay
    split
    · exact Nat.le_refl month
    · exact Nat.le_of_succ_le (ih (month + 1) (day - length))

theorem dayOfYear_monthDay (lengths : List Nat) (month day : Nat) :
    dayOfYear lengths ((monthDay lengths month day).1 - month) (monthDay lengths month day).2 =
      day := by
  induction lengths generalizing month day with
  | nil => rfl
  | cons length rest ih =>
    unfold monthDay
    split
    · simp [dayOfYear]
    · next h =>
      have hover := le_monthDay rest (month + 1) (day - length)
      obtain ⟨months, hmonths⟩ := Nat.exists_eq_add_of_le hover
      have hback := ih (month + 1) (day - length)
      rw [hmonths, Nat.add_sub_cancel_left] at hback
      have hmore : month + 1 + months - month = months + 1 := by omega
      rw [hmonths, hmore, dayOfYear, hback]
      omega

theorem monthDay_mem {lengths : List Nat} {day : Nat} (h : day < lengths.foldr (· + ·) 0)
    (month : Nat) : ∃ i length, lengths[i]? = some length ∧
      (monthDay lengths month day).1 = month + i ∧ 1 ≤ (monthDay lengths month day).2 ∧
        (monthDay lengths month day).2 ≤ length := by
  induction lengths generalizing month day with
  | nil => cases h
  | cons length rest ih =>
    unfold monthDay
    split
    · next hlt => exact ⟨0, length, rfl, rfl, Nat.succ_pos day, hlt⟩
    · next hle =>
      rw [List.foldr_cons] at h
      have hrest : day - length < rest.foldr (· + ·) 0 := by omega
      obtain ⟨i, found, hfound, hmonth, hday⟩ := ih hrest (month + 1)
      exact ⟨i + 1, found, hfound, by omega, hday⟩

def Date.dayNumber (date : Date) : Int :=
  daysBefore date.year + dayOfYear (monthLengths (isLeap date.year)) (date.month - 1) date.day -
    epoch

theorem dayInYear_lt (day : Int) :
    (day - daysBefore (yearOf day)).toNat < yearLength (isLeap (yearOf day)) := by
  obtain ⟨hstart, hend⟩ := daysBefore_yearOf day
  rw [daysBefore_succ] at hend
  omega

theorem dayNumber_date (day : Int) : (date day).dayNumber = day := by
  obtain ⟨hstart, -⟩ := daysBefore_yearOf (day + epoch)
  have hback := dayOfYear_monthDay (monthLengths (isLeap (yearOf (day + epoch)))) 1
    (day + epoch - daysBefore (yearOf (day + epoch))).toNat
  unfold date Date.dayNumber
  dsimp only
  rw [hback]
  omega

/-- Different days have different dates. -/
theorem date_injective : Function.Injective date :=
  Function.LeftInverse.injective dayNumber_date

theorem date_bounds (day : Int) : (date day).month ≤ 12 ∧ (date day).day ≤ 31 := by
  have htotal (leap : Bool) : (monthLengths leap).foldr (· + ·) 0 = yearLength leap := by
    cases leap <;> rfl
  have hlengths (leap : Bool) : ∀ length ∈ monthLengths leap, length ≤ 31 := by
    cases leap <;> decide
  have hlt := dayInYear_lt (day + epoch)
  rw [← htotal] at hlt
  obtain ⟨i, length, hget, hmonth, -, hday⟩ := monthDay_mem hlt 1
  have hlength := hlengths _ length (List.mem_of_getElem? hget)
  have hi : i < 12 := (List.getElem?_eq_some_iff.mp hget).1
  unfold date
  dsimp only
  omega

end DataFlash.Calendar
