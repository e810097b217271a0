import DataFlash.Text.Lines
import Mathlib.Data.List.DropRight
import Mathlib.Tactic.Common

namespace DataFlash.Text

/-- A text that a part of a line holds as it stands. -/
structure Clean (text : List Char) : Prop where
  comma : ',' ∉ text
  feed : '\n' ∉ text
  head : ∀ c ∈ text.head?, isBlank c = false
  last : ∀ c ∈ text.getLast?, isBlank c = false

instance (text : List Char) : Decidable (Clean text) :=
  decidable_of_iff
    (',' ∉ text ∧ '\n' ∉ text ∧ text.head?.all (!isBlank ·) ∧ text.getLast?.all (!isBlank ·)) <| by
      simp only [Option.all_eq_true, Bool.not_eq_true']
      constructor
      · intro ⟨comma, feed, head, last⟩
        exact { comma, feed, head, last }
      · intro h
        exact ⟨h.comma, h.feed, h.head, h.last⟩

theorem clean_of_forall {text : List Char} (h : ∀ c ∈ text, isBlank c = false ∧ c ≠ ',') :
    Clean text where
  comma hc := (h _ hc).2 rfl
  feed hc := absurd (h _ hc).1 (by decide)
  head c hc := (h c (List.mem_of_mem_head? hc)).1
  last c hc := (h c (List.mem_of_mem_getLast? hc)).1

theorem notMem_intercalate {c : Char} {separator : List Char} (hs : c ∉ separator)
    {texts : List (List Char)} (h : ∀ t ∈ texts, c ∉ t) : c ∉ separator.intercalate texts := by
  induction texts with
  | nil => simp
  | cons t more ih =>
    have ht : c ∉ t := h t (by simp)
    have hmore : c ∉ separator.intercalate more := ih fun t' ht' => h t' (by simp [ht'])
    cases more with
    | nil => simpa using ht
    | cons u more =>
      rw [List.intercalate_cons_cons]
      simp only [List.mem_append, not_or]
      exact ⟨⟨ht, hs⟩, hmore⟩

theorem dropWhile_isBlank {text : List Char} (h : ∀ c ∈ text.head?, isBlank c = false) :
    text.dropWhile isBlank = text := by
  cases text with
  | nil => rfl
  | cons c text =>
    have hc : isBlank c = false := h c rfl
    simp [hc]

theorem trim_eq_self {text : List Char} (head : ∀ c ∈ text.head?, isBlank c = false)
    (last : ∀ c ∈ text.getLast?, isBlank c = false) : trim text = text := by
  have hlast : text.reverse.dropWhile isBlank = text.reverse :=
    dropWhile_isBlank (by simpa using last)
  rw [trim, dropWhile_isBlank head, hlast, List.reverse_reverse]

theorem trim_blank_cons {c : Char} (h : isBlank c = true) (text : List Char) :
    trim (c :: text) = trim text := by
  simp [trim, h]

theorem trim_ends (text : List Char) :
    (∀ c ∈ (trim text).head?, isBlank c = false) ∧
      ∀ c ∈ (trim text).getLast?, isBlank c = false := by
  have hnot (l : List Char) : ∀ c ∈ (l.dropWhile isBlank).head?, isBlank c = false := by
    intro c hc
    have hhead := List.head?_dropWhile_not isBlank l
    rwa [Option.mem_def.mp hc] at hhead
  constructor
  · intro c hc
    obtain ⟨rest, hrest⟩ := List.rdropWhile_prefix isBlank (text.dropWhile isBlank)
    refine hnot text c ?_
    rw [← hrest]
    exact List.mem_head?_append_of_mem_head? hc
  · intro c hc
    refine hnot (text.dropWhile isBlank).reverse c ?_
    rwa [trim, List.getLast?_reverse] at hc

theorem trim_trim (text : List Char) : trim (trim text) = trim text :=
  trim_eq_self (trim_ends text).1 (trim_ends text).2

theorem trim_eq_nil {text : List Char} : trim text = [] ↔ ∀ c ∈ text, isBlank c = true := by
  constructor
  · intro h
    have hback := List.dropWhile_eq_nil_iff.mp (List.reverse_eq_nil_iff.mp h)
    refine List.dropWhile_eq_nil_iff.mp ?_
    by_contra hne
    have hhead := List.head_dropWhile_not isBlank hne
    rw [hback _ (List.mem_reverse.mpr (List.head_mem hne))] at hhead
    cases hhead
  · intro h
    rw [trim, List.dropWhile_eq_nil_iff.mpr h]
    rfl

theorem Clean.trim {text : List Char} (h : Clean text) : trim text = text :=
  trim_eq_self h.head h.last

theorem parts_append_comma (front back : List Char) :
    parts (front ++ ',' :: back) = parts front ++ parts back := by
  simp [parts, List.splitOn_append_cons_self]

theorem parts_blank_cons {c : Char} (h : isBlank c = true) (hc : c ≠ ',') (line : List Char) :
    parts (c :: line) = parts line := by
  have hb : (c == ',') = false := by simpa using hc
  unfold parts
  rw [List.splitOn_cons_eq_if_modifyHead, hb]
  cases hs : line.splitOn ',' with
  | nil => exact absurd hs (List.splitOn_ne_nil ',' line)
  | cons part more => simp [trim_blank_cons h]

theorem notMem_of_mem_splitOn {a : Char} {text piece : List Char} (h : piece ∈ text.splitOn a) :
    a ∉ piece := by
  induction text generalizing piece with
  | nil =>
    obtain rfl := List.mem_singleton.mp h
    exact List.not_mem_nil
  | cons c text ih =>
    rw [List.splitOn_cons_eq_if_modifyHead] at h
    split at h
    · rcases List.mem_cons.mp h with rfl | h
      · exact List.not_mem_nil
      · exact ih h
    · next hc =>
      obtain ⟨first, more, hsplit⟩ := List.exists_cons_of_ne_nil (List.splitOn_ne_nil a text)
      rw [hsplit, List.modifyHead_cons] at h
      rcases List.mem_cons.mp h with rfl | h
      · have hfirst : a ∉ first := ih (hsplit ▸ List.mem_cons_self)
        simpa [hfirst] using fun he : a = c => hc (by simp [he])
      · exact ih (hsplit ▸ List.mem_cons_of_mem _ h)

/-- The parts of a line have no commas, and no white space at their ends. -/
theorem part_of_mem {line part : List Char} (h : part ∈ parts line) :
    ',' ∉ part ∧ trim part = part := by
  obtain ⟨piece, hpiece, rfl⟩ := List.mem_map.mp h
  refine ⟨fun hmem => ?_, trim_trim piece⟩
  have hsub : trim piece <:+: piece :=
    (List.rdropWhile_prefix isBlank _).isInfix.trans (List.dropWhile_suffix isBlank).isInfix
  exact notMem_of_mem_splitOn hpiece (hsub.subset hmem)

theorem parts_eq_blank {line : List Char} : parts line = [[]] ↔ trim line = [] := by
  constructor
  · intro h
    obtain ⟨piece, hpiece, htrim⟩ := List.map_eq_singleton_iff.mp h
    have hline : [','].intercalate (line.splitOn ',') = line := List.intercalate_splitOn ','
    rw [hpiece, List.intercalate_singleton] at hline
    exact hline ▸ htrim
  · intro h
    have hcomma : ',' ∉ line := fun hmem => absurd (trim_eq_nil.mp h _ hmem) (by decide)
    rw [parts, List.splitOn_eq_singleton hcomma, List.map_singleton, h]

theorem Clean.parts {text : List Char} (h : Clean text) : parts text = [text] := by
  simp [Text.parts, List.splitOn_eq_singleton h.comma, h.trim]

theorem Clean.parts_cons {text : List Char} (h : Clean text) (line : List Char) :
    Text.parts (text ++ ',' :: ' ' :: line) = text :: Text.parts line := by
  rw [parts_append_comma, h.parts, parts_blank_cons rfl (by decide)]
  rfl

/-- Parts written with a comma and a space between them are read back, and the parts of whatever is
written last follow them. -/
theorem parts_intercalate_append {texts : List (List Char)} (h : ∀ t ∈ texts, Clean t)
    (last : List Char) :
    parts ([',', ' '].intercalate (texts ++ [last])) = texts ++ parts last := by
  induction texts with
  | nil => simp
  | cons t more ih =>
    have hline : [',', ' '].intercalate (t :: more ++ [last]) =
        t ++ ',' :: ' ' :: [',', ' '].intercalate (more ++ [last]) := by
      rw [List.cons_append, List.intercalate_cons_of_ne_nil (by simp)]
      simp
    rw [hline, (h t (by simp)).parts_cons, ih fun t' ht' => h t' (by simp [ht'])]
    rfl

theorem parts_intercalate_clean {texts : List (List Char)} (h : ∀ t ∈ texts, Clean t)
    (hne : texts ≠ []) : parts ([',', ' '].intercalate texts) = texts := by
  have hsplit := List.dropLast_concat_getLast hne
  have hlast := (h _ (List.getLast_mem hne)).parts
  have hfront : ∀ t ∈ texts.dropLast, Clean t := fun t ht => h t (List.dropLast_subset texts ht)
  conv_lhs => rw [← hsplit]
  rw [parts_intercalate_append hfront, hlast, hsplit]

theorem parts_join {texts : List (List Char)} (hne : texts ≠ [])
    (h : ∀ t ∈ texts, ',' ∉ t ∧ trim t = t) : parts ([','].intercalate texts) = texts := by
  have htrim : texts.map trim = texts.map id := List.map_congr_left fun t ht => (h t ht).2
  rw [parts, List.splitOn_intercalate ',' (fun t ht => (h t ht).1) hne, htrim, List.map_id]

/-- Texts joined by commas are the parts of the line; a line without any has an empty part. -/
theorem parts_intercalate {texts : List (List Char)} (h : ∀ t ∈ texts, Clean t) :
    parts ([','].intercalate texts) = if texts = [] then [[]] else texts := by
  by_cases hne : texts = []
  · simp [hne, parts, trim]
  · rw [if_neg hne, parts_join hne fun t ht => ⟨(h t ht).comma, (h t ht).trim⟩]

@[simp] theorem lines_nil : lines [] = [] := rfl

theorem lines_append {line : List Char} (h : '\n' ∉ line) (text : List Char) :
    lines (line ++ '\n' :: text) = line :: lines text := by
  have hne := List.splitOn_ne_nil '\n' text
  have hsplit : (line ++ '\n' :: text).splitOn '\n' = line :: text.splitOn '\n' :=
    List.splitOn_append_cons_self_of_not_mem h text
  unfold lines
  dsimp only
  rw [hsplit, List.getLast?_cons_of_ne_nil hne, List.dropLast_cons_of_ne_nil hne]
  split <;> rfl

end DataFlash.Text
