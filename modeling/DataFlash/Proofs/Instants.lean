import DataFlash.Proofs.Calendar
import DataFlash.Proofs.Timestamp

namespace DataFlash

theorem ofDigits_paddedDigits (width n : Nat) : Numeral.ofDigits (paddedDigits width n) = n := by
  have hzeros (count : Nat) : Numeral.ofDigits (List.replicate count '0') = 0 := by
    induction count with
    | zero => rfl
    | succ count ih =>
      rw [List.replicate_succ', Numeral.ofDigits, List.foldl_append, ← Numeral.ofDigits, ih]
      rfl
  have hdigits : Numeral.ofDigits (decimalDigits n) = n := Nat.ofDigitChars_ten_toDigits
  rw [paddedDigits, Numeral.ofDigits, List.foldl_append, ← Numeral.ofDigits, hzeros]
  exact hdigits

theorem paddedDigits_injective (width : Nat) : Function.Injective (paddedDigits width) :=
  Function.LeftInverse.injective (ofDigits_paddedDigits width)

theorem length_paddedDigits {n : Nat} (h : n < 100) : (paddedDigits 2 n).length = 2 := by
  have hle : (decimalDigits n).length ≤ 2 :=
    (Nat.length_toDigits_le_iff (by omega) (by omega)).mpr h
  rw [paddedDigits, List.length_append, List.length_replicate]
  omega

theorem append_paddedDigits_inj {front front' : List Char} {n n' : Nat} (hn : n < 100)
    (hn' : n' < 100) (h : front ++ paddedDigits 2 n = front' ++ paddedDigits 2 n') :
    front = front' ∧ n = n' := by
  have hlength : (paddedDigits 2 n).length = (paddedDigits 2 n').length := by
    rw [length_paddedDigits hn, length_paddedDigits hn']
  obtain ⟨hfront, hdigits⟩ := List.append_inj' h hlength
  exact ⟨hfront, paddedDigits_injective 2 hdigits⟩

namespace Timestamp

theorem yearText_injective : Function.Injective yearText := by
  -- A year with a sign does not begin with a digit.
  have hsigned (year : Int) (rest : List Char) (other : Nat) :
      (if year < 0 then '-' else '+') :: rest ≠ paddedDigits 4 other := by
    intro h
    have hdigit := isDigit_of_mem_paddedDigits (h ▸ List.mem_cons_self)
    split at hdigit <;> cases hdigit
  intro year other h
  unfold yearText at h
  by_cases hyear : 0 ≤ year ∧ year ≤ 9999 <;> by_cases hother : 0 ≤ other ∧ other ≤ 9999
  · rw [if_pos hyear, if_pos hother] at h
    have hsame := paddedDigits_injective 4 h
    omega
  · rw [if_pos hyear, if_neg hother] at h
    exact absurd h.symm (hsigned _ _ _)
  · rw [if_neg hyear, if_pos hother] at h
    exact absurd h (hsigned _ _ _)
  · rw [if_neg hyear, if_neg hother] at h
    obtain ⟨hsign, hdigits⟩ := List.cons.inj h
    have hsame := paddedDigits_injective 4 hdigits
    have hminus (year : Int) : (if year < 0 then '-' else '+') = '-' ↔ year < 0 := by simp
    have hnegative : year < 0 ↔ other < 0 := by rw [← hminus year, hsign, hminus other]
    omega

/-- Behind its year every part of a date has two digits, so the parts can be told apart. -/
theorem dateText_injective : Function.Injective dateText := by
  intro seconds other h
  obtain ⟨hmonth, hday⟩ := Calendar.date_bounds (seconds / 86400)
  obtain ⟨hmonth', hday'⟩ := Calendar.date_bounds (other / 86400)
  unfold dateText at h
  dsimp only at h
  obtain ⟨h, hsecond⟩ := append_paddedDigits_inj (by omega) (by omega) h
  obtain ⟨h, hminute⟩ := append_paddedDigits_inj (by omega) (by omega) (List.append_cancel_right h)
  obtain ⟨h, hhour⟩ := append_paddedDigits_inj (by omega) (by omega) (List.append_cancel_right h)
  obtain ⟨h, hday⟩ := append_paddedDigits_inj (by omega) (by omega) (List.append_cancel_right h)
  obtain ⟨h, hmonth⟩ := append_paddedDigits_inj (by omega) (by omega) (List.append_cancel_right h)
  have hyear := yearText_injective (List.append_cancel_right h)
  have hdate : Calendar.date (seconds / 86400) = Calendar.date (other / 86400) := by
    rw [Calendar.Date.mk.injEq]
    exact ⟨hyear, hmonth, hday⟩
  have hdays := Calendar.date_injective hdate
  omega

/-- A date has a blank in it, and the number of its seconds has none. -/
theorem dateText_ne_toString (seconds number : Int) :
    dateText seconds ≠ (toString number).toList := by
  intro h
  have hblank : ' ' ∈ dateText seconds := by simp [dateText]
  rw [h] at hblank
  exact Numeral.notMem_toString_int rfl (by decide) number hblank

theorem secondText_injective : Function.Injective secondText := by
  intro seconds other h
  unfold secondText at h
  split at h <;> split at h
  · exact dateText_injective h
  · exact absurd h (dateText_ne_toString _ _)
  · exact absurd h.symm (dateText_ne_toString _ _)
  · have hread := congrArg Numeral.integer? h
    rw [Numeral.integer?_toString, Numeral.integer?_toString] at hread
    exact Option.some.inj hread

theorem hundredths_lt (time : Float) : hundredths time < 100 := by
  unfold hundredths
  omega

theorem hundredths_eq_iff {time other : Float} : hundredths time = hundredths other ↔
    (truncated (time * 100)).toInt % 100 = (truncated (other * 100)).toInt % 100 := by
  unfold hundredths
  omega

/-- A text that is put together of a second and hundredths is that of a time only if they are the
second and the hundredths of the time. -/
theorem text_eq_parts_iff {time : Float} {front : List Char} {n : Nat} (hn : n < 100) :
    text time = String.ofList (front ++ ['.'] ++ paddedDigits 2 n) ↔
      secondText (second time) = front ∧ hundredths time = n := by
  rw [text, String.ofList_inj]
  constructor
  · intro h
    obtain ⟨hfront, rfl⟩ := append_paddedDigits_inj (hundredths_lt time) hn h
    exact ⟨List.append_cancel_right hfront, rfl⟩
  · rintro ⟨rfl, rfl⟩
    rfl

theorem text_eq_text_iff {time other : Float} : text time = text other ↔
    floored time = floored other ∧ hundredths time = hundredths other := by
  have hparts := @text_eq_parts_iff time (secondText (second other)) _ (hundredths_lt other)
  rw [← text] at hparts
  rw [hparts, secondText_injective.eq_iff, second, second, Int64.toInt_inj]

theorem dot_notMem_secondText (seconds : Int) : '.' ∉ secondText seconds := by
  have hdigit : '.'.isDigit = false := rfl
  have hyear := notMem_yearText hdigit (by decide) (by decide)
  unfold secondText
  split
  · simp [dateText, hyear, notMem_paddedDigits hdigit]
  · exact Numeral.notMem_toString_int hdigit (by decide) _

/-- Two times, infinite ones and those that are no numbers among them, are written alike exactly if
their whole seconds are equal and so are the hundredths past them. No date is written like a count
of seconds, and behind the only point of a time there are two digits. -/
theorem written_alike_iff (time other : Float) :
    (text time = text other ↔ floored time = floored other ∧
        (truncated (time * 100)).toInt % 100 = (truncated (other * 100)).toInt % 100) ∧
      (∀ seconds number : Int, dateText seconds ≠ (toString number).toList) ∧
      ∃ front tens ones, (text time).toList = front ++ ['.', tens, ones] ∧ '.' ∉ front ∧
        tens.isDigit = true ∧ ones.isDigit = true := by
  refine ⟨?_, dateText_ne_toString, ?_⟩
  · rw [text_eq_text_iff, hundredths_eq_iff]
  · have hlength : (paddedDigits 2 (hundredths time)).length = 2 :=
      length_paddedDigits (hundredths_lt time)
    obtain ⟨tens, ones, hdigits⟩ := List.length_eq_two.mp hlength
    have hdigit {c : Char} (hc : c ∈ [tens, ones]) : c.isDigit = true :=
      isDigit_of_mem_paddedDigits (hdigits ▸ hc)
    refine ⟨secondText (second time), tens, ones, ?_, dot_notMem_secondText _,
      hdigit (by simp), hdigit (by simp)⟩
    rw [text, String.toList_ofList, hdigits, List.append_assoc]
    rfl

end Timestamp

end DataFlash
