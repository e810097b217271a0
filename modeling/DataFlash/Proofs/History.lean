import DataFlash.Proofs.Cursor
import DataFlash.Proofs.NextMessage
import Mathlib.Data.List.DropRight
import Mathlib.Logic.Function.Iterate

namespace DataFlash

section Newest

variable {κ : Type} {key : Definition → κ} {comes : Nat → Definition → Prop} {n : Nat} {k : κ}
  {d : Definition}

/-- The newest definition of a key that comes in one of the first steps. -/
def Newest (key : Definition → κ) (comes : Nat → Definition → Prop) (n : Nat) (k : κ)
    (d : Definition) : Prop :=
  ∃ i < n, comes i d ∧ key d = k ∧ ∀ j, i < j → j < n → ∀ d', comes j d' → key d' ≠ k

def Absent (key : Definition → κ) (comes : Nat → Definition → Prop) (n : Nat) (k : κ) : Prop :=
  ∀ i < n, ∀ d, comes i d → key d ≠ k

theorem newest_succ : Newest key comes (n + 1) k d ↔
    (comes n d ∧ key d = k) ∨ ((∀ d', comes n d' → key d' ≠ k) ∧ Newest key comes n k d) := by
  constructor
  · rintro ⟨i, hi, hcomes, hkey, hlater⟩
    rcases Nat.lt_succ_iff_lt_or_eq.mp hi with hlt | rfl
    · refine .inr ⟨hlater n hlt (Nat.lt_succ_self n), i, hlt, hcomes, hkey, fun j hij hj => ?_⟩
      exact hlater j hij (Nat.lt_succ_of_lt hj)
    · exact .inl ⟨hcomes, hkey⟩
  · rintro (⟨hcomes, hkey⟩ | ⟨hlast, i, hi, hcomes, hkey, hlater⟩)
    · exact ⟨n, Nat.lt_succ_self n, hcomes, hkey, fun j hnj hj => absurd hnj (by omega)⟩
    · refine ⟨i, Nat.lt_succ_of_lt hi, hcomes, hkey, fun j hij hj => ?_⟩
      rcases Nat.lt_succ_iff_lt_or_eq.mp hj with hlt | rfl
      · exact hlater j hij hlt
      · exact hlast

theorem absent_succ : Absent key comes (n + 1) k ↔
    (∀ d, comes n d → key d ≠ k) ∧ Absent key comes n k := by
  simp only [Absent, Nat.lt_succ_iff_lt_or_eq, or_imp, forall_and, forall_eq]
  exact and_comm

/-- What comes last is the newest of its key and leaves the other keys as they are. -/
theorem newest_succ_of_comes [DecidableEq κ] {last : Definition}
    (only : ∀ d', comes n d' ↔ d' = last) :
    Newest key comes (n + 1) k d ↔ if k = key last then d = last else Newest key comes n k d := by
  rw [newest_succ]
  simp only [only, forall_eq]
  split
  · next hk =>
    rw [hk]
    simp only [ne_eq, not_true_eq_false, false_and, or_false, and_iff_left_iff_imp]
    exact fun hd => congrArg key hd
  · next hk =>
    have hne : key last ≠ k := fun h => hk h.symm
    simp only [ne_eq, hne, not_false_eq_true, true_and, or_iff_right_iff_imp, and_imp]
    rintro rfl h
    exact absurd h hne

/-- A table that takes in what comes holds the newest definition of each key, or what it held at the
start where none has come. -/
theorem get?_eq_newest [DecidableEq κ] (key : Definition → κ) (comes : Nat → Definition → Prop)
    (table : Nat → Table κ) (once : ∀ i d d', comes i d → comes i d' → d' = d)
    (learned : ∀ i d, comes i d → table (i + 1) = (table i).insert (key d) d)
    (kept : ∀ i, (∀ d, ¬ comes i d) → table (i + 1) = table i) :
    (table n).get? k = some d ↔
      Newest key comes n k d ∨ (Absent key comes n k ∧ (table 0).get? k = some d) := by
  induction n with
  | zero => simp [Newest, Absent]
  | succ n ih =>
    by_cases hcomes : ∃ last, comes n last
    · obtain ⟨last, hlast⟩ := hcomes
      have only : ∀ d', comes n d' ↔ d' = last :=
        fun d' => ⟨once n last d' hlast, fun h => h ▸ hlast⟩
      rw [learned n last hlast, Table.get?_insert, newest_succ_of_comes only, absent_succ]
      by_cases hk : k = key last
      · simp [only, hk, eq_comm]
      · simp [only, hk, Ne.symm hk, ih]
    · have hnone : ∀ d, ¬ comes n d := not_exists.mp hcomes
      rw [kept n hnone, ih, newest_succ, absent_succ]
      simp [hnone]

end Newest

namespace BinaryLog

/-- The next message defines a message, and its record is accepted as a definition. -/
def Accepts (l : BinaryLog) (d : Definition) : Prop :=
  ∃ start layout payload fields, l.Next start Definition.defining.typeId layout payload ∧
    layout.decode payload = .ok fields ∧
      Definition.ofRecord { name := layout.name, fields } = .ok d

def pulled (bytes : List UInt8) (n : Nat) : BinaryLog :=
  (fun l : BinaryLog => l.pull.next)^[n] (ofBytes bytes)

/-- How many pulls there are after the last rewind. -/
def pulls (calls : List Cursor.Call) : Nat := (calls.rtakeWhile (· = .pull)).length

theorem pulled_succ (bytes : List UInt8) (n : Nat) :
    pulled bytes (n + 1) = (pulled bytes n).pull.next := Function.iterate_succ_apply' _ n _

theorem source_pulled (bytes : List UInt8) (n : Nat) : (pulled bytes n).source = bytes := by
  induction n with
  | zero => rfl
  | succ n ih => rw [pulled_succ, source_pull, ih]

theorem limit_pulled (bytes : List UInt8) (n : Nat) : (pulled bytes n).limit = .trace := by
  induction n with
  | zero => rfl
  | succ n ih => rw [pulled_succ, limit_pull, ih]

theorem coherent_pulled (bytes : List UInt8) (n : Nat) : (pulled bytes n).Coherent := by
  induction n with
  | zero => exact coherent_ofBytes bytes
  | succ n ih => exact pulled_succ bytes n ▸ ih.pull

/-- Calls leave a log as the pulls after their last rewind do. -/
theorem foldl_perform (bytes : List UInt8) (calls : List Cursor.Call) :
    calls.foldl Cursor.perform (ofBytes bytes) = pulled bytes (pulls calls) := by
  -- On the last call, as the calls before a rewind do not count.
  induction calls using List.reverseRecOn with
  | nil => rfl
  | append_singleton calls call ih =>
    rw [List.foldl_concat, ih]
    cases call with
    | pull =>
      have hpulls : pulls (calls ++ [.pull]) = pulls calls + 1 := by simp [pulls]
      rw [hpulls, pulled_succ]
      rfl
    | rewind =>
      have hpulls : pulls (calls ++ [.rewind]) = 0 := by simp [pulls]
      rw [hpulls, Cursor.perform, rewind, source_pulled, limit_pulled]
      rfl

variable {l : BinaryLog} {d d' : Definition}

theorem Accepts.unique (hd : l.Accepts d) (hd' : l.Accepts d') : d' = d := by
  obtain ⟨start, layout, payload, fields, hn, hdecode, hrecord⟩ := hd
  obtain ⟨start', layout', payload', fields', hn', hdecode', hrecord'⟩ := hd'
  obtain ⟨-, -, rfl, rfl⟩ := hn.unique hn'
  obtain rfl := Except.ok.inj (hdecode'.symm.trans hdecode)
  exact Except.ok.inj (hrecord'.symm.trans hrecord)

theorem Coherent.table_of_accepts (h : l.Coherent) (hd : l.Accepts d) :
    l.pull.next.table = l.table.insert d.typeId d := by
  obtain ⟨start, layout, payload, fields, hn, hdecode, hrecord⟩ := hd
  rw [(h.pull_next hn).2, interpret_learned hdecode rfl hrecord]

theorem Coherent.table_of_not_accepts (h : l.Coherent) (hno : ∀ d, ¬ l.Accepts d) :
    l.pull.next.table = l.table := by
  cases hitem : l.pull.item with
  | none => exact h.table_of_ended hitem
  | some item =>
    obtain ⟨start, typeId, layout, payload, hn⟩ := h.exists_next hitem
    obtain ⟨fields, hdecode, -⟩ := h.decode_next hn
    rw [(h.pull_next hn).2]
    by_cases htype : typeId = Definition.defining.typeId
    · subst htype
      cases hrecord : Definition.ofRecord { name := layout.name, fields } with
      | ok d => exact absurd ⟨start, layout, payload, fields, hn, hdecode, hrecord⟩ (hno d)
      | error e => rw [interpret_refused hdecode rfl hrecord]
    · rw [interpret_data hdecode htype]

/-- The definition of a type is the newest that was accepted since the start or the last rewind;
where there is none, definitions themselves are still defined. -/
theorem get?_pulled {bytes : List UInt8} {n : Nat} {typeId : UInt8} :
    (pulled bytes n).table.get? typeId = some d ↔
      Newest (·.typeId) (fun i => (pulled bytes i).Accepts) n typeId d ∨
      (Absent (·.typeId) (fun i => (pulled bytes i).Accepts) n typeId ∧
        typeId = Definition.defining.typeId ∧ d = Definition.defining) := by
  have hlearned : ∀ i d, (pulled bytes i).Accepts d →
      (pulled bytes (i + 1)).table = (pulled bytes i).table.insert d.typeId d := by
    intro i d hd
    rw [pulled_succ, (coherent_pulled bytes i).table_of_accepts hd]
  have hkept : ∀ i, (∀ d, ¬ (pulled bytes i).Accepts d) →
      (pulled bytes (i + 1)).table = (pulled bytes i).table := by
    intro i hno
    rw [pulled_succ, (coherent_pulled bytes i).table_of_not_accepts hno]
  have hstart : (pulled bytes 0).table.get? typeId = some d ↔
      typeId = Definition.defining.typeId ∧ d = Definition.defining := by
    change initialTable.get? typeId = some d ↔ _
    rw [get?_initialTable]
    split
    · next htype => simp [htype, eq_comm]
    · next htype => simp [htype]
  rw [← hstart]
  exact get?_eq_newest (·.typeId) (fun i => (pulled bytes i).Accepts)
    (fun i => (pulled bytes i).table) (fun _ _ _ => Accepts.unique) hlearned hkept

end BinaryLog

end DataFlash
