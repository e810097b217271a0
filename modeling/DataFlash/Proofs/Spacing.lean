import DataFlash.Proofs.Lines
import Mathlib.Logic.Relation

namespace DataFlash

namespace Text

def isSpacing (c : Char) : Bool := isBlank c && c != '\n'

def EndsLine (front : List Char) : Prop := ∀ c ∈ front.getLast?, c = '\n'

/-- One change of the layout of a text: a line of white space before or behind a line, a carriage
return before a line feed, or white space at an end of a line or next to a comma. At the end of a
line there may be other white space behind it, such as the carriage return. -/
inductive Respaced : List Char → List Char → Prop
  | blankLine {front line : List Char} (back : List Char) :
    EndsLine front → (∀ c ∈ line, isSpacing c) →
      Respaced (front ++ back) (front ++ line ++ '\n' :: back)
  | lastLine {line : List Char} (front : List Char) :
    (∀ c ∈ line, isSpacing c) → Respaced front (front ++ '\n' :: line)
  | carriageReturn (front back : List Char) :
    Respaced (front ++ '\n' :: back) (front ++ '\r' :: '\n' :: back)
  | lineStart {front : List Char} {c : Char} (back : List Char) :
    EndsLine front → isSpacing c → Respaced (front ++ back) (front ++ c :: back)
  | lineEnd {trailing back : List Char} {c : Char} (front : List Char) :
    (∀ c ∈ trailing, isSpacing c) → (∀ next ∈ back.head?, next = '\n') → isSpacing c →
      Respaced (front ++ (trailing ++ back)) (front ++ c :: (trailing ++ back))
  | beforeComma {c : Char} (front back : List Char) :
    isSpacing c → Respaced (front ++ ',' :: back) (front ++ c :: ',' :: back)
  | afterComma {c : Char} (front back : List Char) :
    isSpacing c → Respaced (front ++ ',' :: back) (front ++ ',' :: c :: back)

theorem not_feed_of_isSpacing {c : Char} (h : isSpacing c) : c ≠ '\n' := by
  simp only [isSpacing, Bool.and_eq_true, bne_iff_ne] at h
  exact h.2

theorem isBlank_of_isSpacing {c : Char} (h : isSpacing c) : isBlank c = true ∧ c ≠ ',' := by
  simp only [isSpacing, Bool.and_eq_true] at h
  refine ⟨h.1, ?_⟩
  rintro rfl
  exact absurd h.1 (by decide)

theorem trim_append_blank {c : Char} (h : isBlank c = true) (text : List Char) :
    trim (text ++ [c]) = trim text := by
  unfold trim
  rw [List.dropWhile_append]
  split
  · next hempty =>
    rw [List.isEmpty_iff.mp hempty]
    simp [h]
  · simp [h]

theorem exists_last_piece {c : Char} {text : List Char} (h : c ∈ text) :
    ∃ front last, text = front ++ c :: last ∧ c ∉ last := by
  obtain ⟨last, front, hsplit, hlast⟩ := List.eq_append_cons_of_mem (List.mem_reverse.mpr h)
  refine ⟨front.reverse, last.reverse, ?_, by simpa using hlast⟩
  rw [← List.reverse_reverse text, hsplit]
  simp

theorem parts_append_blank {c : Char} (h : isBlank c = true) (hc : c ≠ ',') (line : List Char) :
    parts (line ++ [c]) = parts line := by
  have hplain : ∀ {part : List Char}, ',' ∉ part → parts (part ++ [c]) = parts part := by
    intro part hpart
    have hmore : ',' ∉ part ++ [c] := by simp [hpart, Ne.symm hc]
    simp [parts, List.splitOn_eq_singleton hpart, List.splitOn_eq_singleton hmore,
      trim_append_blank h]
  -- The blank stands in the part behind the last comma.
  by_cases hcomma : ',' ∈ line
  · obtain ⟨front, last, rfl, hlast⟩ := exists_last_piece hcomma
    rw [List.append_assoc, List.cons_append, parts_append_comma, parts_append_comma, hplain hlast]
  · exact hplain hcomma

theorem parts_spacing {line : List Char} (h : ∀ c ∈ line, isSpacing c) : parts line = [[]] :=
  parts_eq_blank.mpr (trim_eq_nil.mpr fun c hc => (isBlank_of_isSpacing (h c hc)).1)

/-- The parts of the lines that are not blank. -/
def contents (lines : List (List Char)) : List (List (List Char)) :=
  (lines.filter fun line => parts line ≠ [[]]).map parts

def contentsOf (text : List Char) : List (List (List Char)) := contents (text.splitOn '\n')

theorem contents_append (lines more : List (List Char)) :
    contents (lines ++ more) = contents lines ++ contents more := by
  simp [contents]

theorem contents_lines (text : List Char) : contents (lines text) = contentsOf text := by
  unfold lines contentsOf
  dsimp only
  split
  · next hlast =>
    obtain ⟨front, hsplit⟩ := List.getLast?_eq_some_iff.mp hlast
    rw [hsplit, List.dropLast_concat, contents_append]
    exact (List.append_nil _).symm
  · rfl

theorem contentsOf_append_feed (front back : List Char) :
    contentsOf (front ++ '\n' :: back) = contentsOf front ++ contentsOf back := by
  rw [contentsOf, List.splitOn_append_cons_self, contents_append]
  rfl

section Line

variable {line line' : List Char}

theorem contentsOf_line (h : '\n' ∉ line) : contentsOf line = contents [line] := by
  rw [contentsOf, List.splitOn_eq_singleton h]

theorem contentsOf_congr (h : '\n' ∉ line) (h' : '\n' ∉ line')
    (hparts : parts line' = parts line) : contentsOf line' = contentsOf line := by
  rw [contentsOf_line h, contentsOf_line h']
  by_cases hblank : parts line = [[]] <;> simp [contents, hparts, hblank]

theorem contentsOf_spacing (h : ∀ c ∈ line, isSpacing c) : contentsOf line = [] := by
  rw [contentsOf_line fun hmem => not_feed_of_isSpacing (h _ hmem) rfl]
  simp [contents, parts_spacing h]

end Line

section Context

variable {mid mid' : List Char}

/-- What holds in front of the rest of a line holds in front of any text. -/
theorem contentsOf_append_right
    (h : ∀ rest, '\n' ∉ rest → contentsOf (mid' ++ rest) = contentsOf (mid ++ rest))
    (back : List Char) : contentsOf (mid' ++ back) = contentsOf (mid ++ back) := by
  by_cases hfeed : '\n' ∈ back
  · obtain ⟨rest, more, rfl, hrest⟩ := List.eq_append_cons_of_mem hfeed
    rw [← List.append_assoc, ← List.append_assoc, contentsOf_append_feed, contentsOf_append_feed,
      h rest hrest]
  · exact h back hfeed

theorem contentsOf_append_left
    (h : ∀ start, '\n' ∉ start → contentsOf (start ++ mid') = contentsOf (start ++ mid))
    (front : List Char) : contentsOf (front ++ mid') = contentsOf (front ++ mid) := by
  by_cases hfeed : '\n' ∈ front
  · obtain ⟨more, start, rfl, hstart⟩ := exists_last_piece hfeed
    rw [List.append_assoc, List.append_assoc, List.cons_append, List.cons_append,
      contentsOf_append_feed, contentsOf_append_feed, h start hstart]
  · exact h front hfeed

/-- What leaves the parts of every line leaves those of a text. -/
theorem contentsOf_within (h : '\n' ∉ mid) (h' : '\n' ∉ mid')
    (hparts : ∀ start rest, parts (start ++ (mid' ++ rest)) = parts (start ++ (mid ++ rest)))
    (front back : List Char) :
    contentsOf (front ++ (mid' ++ back)) = contentsOf (front ++ (mid ++ back)) := by
  refine contentsOf_append_left (fun start hstart => ?_) front
  rw [← List.append_assoc, ← List.append_assoc]
  refine contentsOf_append_right (fun rest hrest => ?_) back
  rw [List.append_assoc, List.append_assoc]
  exact contentsOf_congr (by simp [h, hstart, hrest]) (by simp [h', hstart, hrest])
    (hparts start rest)

theorem EndsLine.cases {front : List Char} (h : EndsLine front) :
    front = [] ∨ ∃ more, front = more ++ ['\n'] := by
  rcases List.eq_nil_or_concat front with hnil | ⟨more, c, rfl⟩
  · exact .inl hnil
  · have hc : c = '\n' := h c (by simp)
    exact .inr ⟨more, by rw [hc, List.concat_eq_append]⟩

theorem EndsLine.contentsOf_append {front : List Char} (h : EndsLine front) {text text' : List Char}
    (heq : contentsOf text' = contentsOf text) :
    contentsOf (front ++ text') = contentsOf (front ++ text) := by
  rcases h.cases with rfl | ⟨more, rfl⟩
  · exact heq
  · rw [List.append_assoc, List.append_assoc, List.singleton_append, List.singleton_append,
      contentsOf_append_feed, contentsOf_append_feed, heq]

end Context

section Spacing

variable {c : Char} (h : isSpacing c)
include h

theorem contentsOf_start (back : List Char) : contentsOf (c :: back) = contentsOf back := by
  obtain ⟨hblank, hcomma⟩ := isBlank_of_isSpacing h
  have hfeed := Ne.symm (not_feed_of_isSpacing h)
  have hline (rest : List Char) (hrest : '\n' ∉ rest) :
      contentsOf ([c] ++ rest) = contentsOf ([] ++ rest) :=
    contentsOf_congr hrest (by simp [hrest, hfeed]) (parts_blank_cons hblank hcomma rest)
  exact contentsOf_append_right hline back

theorem contentsOf_end (front : List Char) : contentsOf (front ++ [c]) = contentsOf front := by
  obtain ⟨hblank, hcomma⟩ := isBlank_of_isSpacing h
  have hfeed := Ne.symm (not_feed_of_isSpacing h)
  have hline (start : List Char) (hstart : '\n' ∉ start) :
      contentsOf (start ++ [c]) = contentsOf (start ++ []) := by
    rw [List.append_nil]
    exact contentsOf_congr hstart (by simp [hstart, hfeed]) (parts_append_blank hblank hcomma start)
  rw [contentsOf_append_left hline front, List.append_nil]

theorem contentsOf_before_comma (front back : List Char) :
    contentsOf (front ++ c :: ',' :: back) = contentsOf (front ++ ',' :: back) := by
  obtain ⟨hblank, hcomma⟩ := isBlank_of_isSpacing h
  have hfeed := Ne.symm (not_feed_of_isSpacing h)
  refine @contentsOf_within [','] [c, ','] (by decide) (by simp [hfeed])
    (fun start rest => ?_) front back
  have hsplit : start ++ ([c, ','] ++ rest) = (start ++ [c]) ++ ',' :: rest := by simp
  rw [hsplit, parts_append_comma, parts_append_blank hblank hcomma, ← parts_append_comma]
  rfl

theorem contentsOf_after_comma (front back : List Char) :
    contentsOf (front ++ ',' :: c :: back) = contentsOf (front ++ ',' :: back) := by
  obtain ⟨hblank, hcomma⟩ := isBlank_of_isSpacing h
  have hfeed := Ne.symm (not_feed_of_isSpacing h)
  refine @contentsOf_within [','] [',', c] (by decide) (by simp [hfeed])
    (fun start rest => ?_) front back
  have hsplit : start ++ ([',', c] ++ rest) = start ++ ',' :: c :: rest := by simp
  rw [hsplit, parts_append_comma, parts_blank_cons hblank hcomma, ← parts_append_comma]
  rfl

end Spacing

theorem contentsOf_trailing {trailing : List Char} (h : ∀ c ∈ trailing, isSpacing c)
    (front : List Char) : contentsOf (front ++ trailing) = contentsOf front := by
  induction trailing using List.reverseRecOn with
  | nil => rw [List.append_nil]
  | append_singleton trailing c ih =>
    rw [← List.append_assoc, contentsOf_end (h c (by simp)), ih fun x hx => h x (by simp [hx])]

theorem contentsOf_line_end {line line' back : List Char}
    (hback : ∀ next ∈ back.head?, next = '\n') (h : contentsOf line' = contentsOf line) :
    contentsOf (line' ++ back) = contentsOf (line ++ back) := by
  cases back with
  | nil => rwa [List.append_nil, List.append_nil]
  | cons next more =>
    rw [hback next rfl, contentsOf_append_feed, contentsOf_append_feed, h]

/-- A change of the layout leaves the parts of all lines that are not blank. -/
theorem Respaced.contentsOf_eq {text text' : List Char} (h : Respaced text text') :
    contentsOf text' = contentsOf text := by
  cases h with
  | blankLine back hfront hline =>
    rw [List.append_assoc]
    apply hfront.contentsOf_append
    rw [contentsOf_append_feed, contentsOf_spacing hline, List.nil_append]
  | lastLine front hline =>
    rw [contentsOf_append_feed, contentsOf_spacing hline, List.append_nil]
  | carriageReturn front back =>
    rw [← List.singleton_append, ← List.append_assoc]
    exact contentsOf_line_end (by simp) (contentsOf_end (by decide) front)
  | lineStart back hfront hc => exact hfront.contentsOf_append (contentsOf_start hc back)
  | @lineEnd trailing back c front htrailing hback hc =>
    have hmore : ∀ x ∈ c :: trailing, isSpacing x := List.forall_mem_cons.mpr ⟨hc, htrailing⟩
    rw [← List.cons_append, ← List.append_assoc, ← List.append_assoc]
    apply contentsOf_line_end hback
    rw [contentsOf_trailing hmore, contentsOf_trailing htrailing]
  | beforeComma front back hc => exact contentsOf_before_comma hc front back
  | afterComma front back hc => exact contentsOf_after_comma hc front back

theorem contentsOf_respaced {text text' : List Char} (h : Relation.EqvGen Respaced text text') :
    contentsOf text' = contentsOf text := by
  induction h with
  | rel _ _ h => exact h.contentsOf_eq
  | refl => rfl
  | symm _ _ _ ih => exact ih.symm
  | trans _ _ _ _ _ ih ih' => exact ih'.trans ih

end Text

end DataFlash
