import DataFlash.Proofs.Spacing
import DataFlash.Proofs.Utf8
import Mathlib.Data.List.Basic

namespace DataFlash

namespace Utf8

def EndsLine (front : List UInt8) : Prop := ∀ b ∈ front.getLast?, b = 0x0A

instance (front : List UInt8) : Decidable (EndsLine front) :=
  decidable_of_iff (front.getLast?.all (· == 0x0A)) <| by
    simp only [EndsLine, Option.all_eq_true, beq_iff_eq]
    rfl

theorem EndsLine.cases {front : List UInt8} (h : EndsLine front) :
    front = [] ∨ ∃ more, front = more ++ [0x0A] := by
  rcases List.eq_nil_or_concat front with hnil | ⟨more, b, rfl⟩
  · exact .inl hnil
  · have hb : b = 0x0A := h b (by simp)
    exact .inr ⟨more, by rw [hb, List.concat_eq_append]⟩

/-- What the reader leaves open: the next byte is none of those that stand for themselves, and the
number of the character will be greater than that of any of them. -/
def Pending.Sound : Pending → Prop
  | .idle => True
  | .within value more low _ => 0x80 ≤ low ∧ (0 < value ∨ 2 ≤ more ∧ 0x80 < low)

theorem ofNat_ne_feed {n : Nat} (h : n ≠ 0x0A) : Char.ofNat n ≠ '\n' := by
  intro hc
  by_cases hvalid : n.isValidChar
  · rw [Char.ofNat, dif_pos hvalid] at hc
    exact h (congrArg Char.toNat hc)
  · rw [Char.ofNat, dif_neg hvalid] at hc
    cases hc

/-- A byte is read as a character, which is a line feed for one byte only, or it opens one. -/
theorem start_cases (b : UInt8) :
    (∃ c, (b ≠ 0x0A → c ≠ '\n') ∧ ∀ r : Reading, r.start b = r.push c) ∨
      ∃ value more low high, (Pending.within value more low high).Sound ∧
        ∀ r : Reading, r.start b = r.await value more low high := by
  have hfeed : b ≠ 0x0A → b.toNat ≠ 0x0A := fun h hn => h (UInt8.toNat_inj.mp hn)
  unfold Reading.start
  simp only [UInt8.lt_iff_toNat_lt, ← UInt8.toNat_inj, UInt8.reduceToNat]
  generalize b.toNat = n at hfeed ⊢
  by_cases h1 : n < 0x80
  · simp only [if_pos h1]
    exact .inl ⟨_, fun hb => ofNat_ne_feed (hfeed hb), fun _ => rfl⟩
  simp only [if_neg h1]
  by_cases h2 : n < 0xC2
  · simp only [if_pos h2]
    exact .inl ⟨_, fun _ => by decide, fun _ => rfl⟩
  simp only [if_neg h2]
  by_cases h3 : n < 0xE0
  · simp only [if_pos h3]
    exact .inr ⟨_, _, _, _, ⟨by decide, .inl (by omega)⟩, fun _ => rfl⟩
  simp only [if_neg h3]
  -- After E0 and F0 the next byte is what makes the number great enough.
  by_cases h4 : n = 0xE0
  · simp only [if_pos h4]
    exact .inr ⟨_, _, _, _, ⟨by decide, .inr ⟨by decide, by decide⟩⟩, fun _ => rfl⟩
  simp only [if_neg h4]
  by_cases h5 : n = 0xED
  · simp only [if_pos h5]
    exact .inr ⟨_, _, _, _, ⟨by decide, .inl (by decide)⟩, fun _ => rfl⟩
  simp only [if_neg h5]
  by_cases h6 : n < 0xF0
  · simp only [if_pos h6]
    exact .inr ⟨_, _, _, _, ⟨by decide, .inl (by omega)⟩, fun _ => rfl⟩
  simp only [if_neg h6]
  by_cases h7 : n = 0xF0
  · simp only [if_pos h7]
    exact .inr ⟨_, _, _, _, ⟨by decide, .inr ⟨by decide, by decide⟩⟩, fun _ => rfl⟩
  simp only [if_neg h7]
  by_cases h8 : n < 0xF4
  · simp only [if_pos h8]
    exact .inr ⟨_, _, _, _, ⟨by decide, .inl (by omega)⟩, fun _ => rfl⟩
  simp only [if_neg h8]
  by_cases h9 : n = 0xF4
  · simp only [if_pos h9]
    exact .inr ⟨_, _, _, _, ⟨by decide, .inl (by decide)⟩, fun _ => rfl⟩
  simp only [if_neg h9]
  exact .inl ⟨_, fun _ => by decide, fun _ => rfl⟩

theorem start_sound (r : Reading) (b : UInt8) : (r.start b).pending.Sound := by
  rcases start_cases b with ⟨c, -, h⟩ | ⟨value, more, low, high, hsound, h⟩
  · rw [h]
    trivial
  · rw [h]
    exact hsound

theorem start_feed {r : Reading} (h : '\n' ∉ r.found) {b : UInt8} (hb : b ≠ 0x0A) :
    '\n' ∉ (r.start b).found := by
  rcases start_cases b with ⟨c, hc, hs⟩ | ⟨value, more, low, high, -, hs⟩
  · rw [hs]
    simp only [Reading.push, List.mem_cons, not_or]
    exact ⟨(hc hb).symm, h⟩
  · rw [hs]
    exact h

theorem step_sound {r : Reading} (h : r.pending.Sound) (b : UInt8) :
    (r.step b).pending.Sound := by
  obtain ⟨found, pending⟩ := r
  cases pending with
  | idle => exact start_sound { found } b
  | within value more low high =>
    simp only [Reading.step]
    split
    · next hrange =>
      split
      · trivial
      · refine ⟨by decide, .inl ?_⟩
        obtain ⟨hlow, hvalue⟩ := h
        simp only [UInt8.le_iff_toNat_le, UInt8.lt_iff_toNat_lt, UInt8.reduceToNat]
          at hlow hvalue hrange
        omega
    · exact start_sound { found := replacement :: found } b

theorem foldl_step_sound {r : Reading} (h : r.pending.Sound) (bytes : List UInt8) :
    (bytes.foldl Reading.step r).pending.Sound := by
  induction bytes generalizing r with
  | nil => exact h
  | cons b bytes ih => exact ih (step_sound h b)

theorem step_feed {r : Reading} (hr : r.pending.Sound) (h : '\n' ∉ r.found) {b : UInt8}
    (hb : b ≠ 0x0A) : '\n' ∉ (r.step b).found := by
  obtain ⟨found, pending⟩ := r
  cases pending with
  | idle => exact start_feed h hb
  | within value more low high =>
    simp only [Reading.step]
    split
    · split
      · -- The last byte of a character: its number is at least 64.
        have hnumber : value * 64 + (b.toNat - 0x80) ≠ 0x0A := by
          obtain ⟨-, hvalue⟩ := hr
          omega
        simp only [Reading.push, List.mem_cons, not_or]
        exact ⟨(ofNat_ne_feed hnumber).symm, h⟩
      · exact h
    · refine start_feed ?_ hb
      simpa [Reading.push, replacement] using h

/-- Bytes without a line feed are read as a text without one. -/
theorem feed_notMem_decode {line : List UInt8} (h : 0x0A ∉ line) : '\n' ∉ decode line := by
  have hfound : ∀ r : Reading, r.pending.Sound → '\n' ∉ r.found →
      '\n' ∉ (line.foldl Reading.step r).found := by
    induction line with
    | nil => exact fun r _ hr => hr
    | cons b line ih =>
      simp only [List.mem_cons, not_or] at h
      exact fun r hs hr => ih h.2 _ (step_sound hs b) (step_feed hs hr (Ne.symm h.1))
  have hread := hfound {} trivial (by simp)
  unfold decode Reading.finish
  split
  · simpa using hread
  · simpa [replacement] using hread

def Reading.behind (r : Reading) (older : List Char) : Reading :=
  { r with found := r.found ++ older }

theorem start_behind (r : Reading) (older : List Char) (b : UInt8) :
    (r.behind older).start b = (r.start b).behind older := by
  rcases start_cases b with ⟨c, -, h⟩ | ⟨value, more, low, high, -, h⟩
  · rw [h, h]
    rfl
  · rw [h, h]
    rfl

theorem step_behind (r : Reading) (older : List Char) (b : UInt8) :
    (r.behind older).step b = (r.step b).behind older := by
  obtain ⟨found, pending⟩ := r
  cases pending with
  | idle => exact start_behind { found } older b
  | within value more low high =>
    simp only [Reading.step, Reading.behind]
    split
    · split <;> rfl
    · exact start_behind { found := replacement :: found } older b

theorem foldl_step_behind (bytes : List UInt8) (r : Reading) (older : List Char) :
    bytes.foldl Reading.step (r.behind older) = (bytes.foldl Reading.step r).behind older := by
  induction bytes generalizing r with
  | nil => rfl
  | cons b bytes ih => rw [List.foldl_cons, List.foldl_cons, step_behind, ih]

theorem finish_behind (r : Reading) (older : List Char) :
    (r.behind older).finish = older.reverse ++ r.finish := by
  obtain ⟨found, pending⟩ := r
  cases pending <;> simp [Reading.behind, Reading.finish]

theorem step_lineFeed {r : Reading} (h : r.pending.Sound) :
    r.step 0x0A = { found := '\n' :: r.finish.reverse } := by
  obtain ⟨found, pending⟩ := r
  cases pending with
  | idle => simp [Reading.step, Reading.start, Reading.push, Reading.finish]
  | within value more low high =>
    have hlow : ¬ low ≤ 0x0A := by
      obtain ⟨hlow, -⟩ := h
      simp only [UInt8.le_iff_toNat_le, UInt8.reduceToNat] at hlow ⊢
      omega
    simp [Reading.step, hlow, Reading.start, Reading.push, Reading.finish]

/-- Bytes are read up to a line feed and behind it as if they stood apart. -/
theorem decode_lineFeed (front back : List UInt8) :
    decode (front ++ 0x0A :: back) = decode front ++ '\n' :: decode back := by
  have hsound : (front.foldl Reading.step {}).pending.Sound :=
    @foldl_step_sound {} trivial front
  have holder := foldl_step_behind back {} ('\n' :: (decode front).reverse)
  have hstart : ({} : Reading).behind ('\n' :: (decode front).reverse) =
      { found := '\n' :: (decode front).reverse } := rfl
  rw [hstart] at holder
  rw [decode, List.foldl_append, List.foldl_cons, step_lineFeed hsound]
  change (back.foldl Reading.step { found := '\n' :: (decode front).reverse }).finish = _
  rw [holder, finish_behind, List.reverse_cons, List.reverse_reverse, List.append_assoc]
  rfl

theorem EndsLine.decode_append {front : List UInt8} (h : EndsLine front) (back : List UInt8) :
    decode (front ++ back) = decode front ++ decode back := by
  rcases h.cases with rfl | ⟨more, rfl⟩
  · rfl
  · rw [List.append_assoc, List.singleton_append, decode_lineFeed, decode_lineFeed,
      List.append_assoc]
    rfl

theorem EndsLine.endsLine_decode {front : List UInt8} (h : EndsLine front) :
    Text.EndsLine (decode front) := by
  rcases h.cases with rfl | ⟨more, rfl⟩
  · exact fun c hc => by cases hc
  · have hnil : decode [] = [] := rfl
    rw [decode_lineFeed, hnil]
    intro c hc
    simpa using hc.symm

end Utf8

namespace Text

theorem lines_append_feed (front back : List Char) :
    lines (front ++ '\n' :: back) = front.splitOn '\n' ++ lines back := by
  have hne := List.splitOn_ne_nil '\n' back
  unfold lines
  dsimp only
  rw [List.splitOn_append_cons_self, List.getLast?_append_of_ne_nil _ hne,
    List.dropLast_append_of_ne_nil hne]
  split <;> rfl

theorem EndsLine.lines_append {front : List Char} (h : EndsLine front) (back : List Char) :
    lines (front ++ back) = lines front ++ lines back := by
  rcases h.cases with rfl | ⟨more, rfl⟩
  · rfl
  · rw [List.append_assoc, List.singleton_append, lines_append_feed, lines_append_feed, lines_nil,
      List.append_nil]

theorem lines_decode_append {front : List UInt8} (h : Utf8.EndsLine front) (back : List UInt8) :
    lines (Utf8.decode (front ++ back)) =
      lines (Utf8.decode front) ++ lines (Utf8.decode back) := by
  rw [h.decode_append, h.endsLine_decode.lines_append]

theorem lines_decode_line {line : List UInt8} (h : 0x0A ∉ line) (back : List UInt8) :
    lines (Utf8.decode (line ++ 0x0A :: back)) = Utf8.decode line :: lines (Utf8.decode back) := by
  rw [Utf8.decode_lineFeed, lines_append (Utf8.feed_notMem_decode h)]

end Text

end DataFlash
