import DataFlash.Proofs.Grammar

namespace DataFlash

namespace Notice

def passes? : Notice → Option String
  | .undefined name | .valueCount name .. => some name
  | _ => none

theorem text_of_passes? {n : Notice} {name : String} (h : n.passes? = some name) :
    n.level = .warn ∧ ∃ why, n.text = "Skipping " ++ name ++ " lines: " ++ why := by
  -- The text goes on behind the colon, with or without a number.
  have htext {words why : String} (hwords : " lines: " ++ why = words) :
      "Skipping " ++ name ++ words = "Skipping " ++ name ++ " lines: " ++ why := by
    rw [← hwords, ← String.append_assoc]
  cases n with
  | undefined other =>
    obtain rfl : other = name := Option.some.inj h
    have hwords : " lines: " ++ "no FMT definition" = " lines: no FMT definition" := by
      decide +kernel
    exact ⟨rfl, _, htext hwords⟩
  | valueCount other expected line got =>
    obtain rfl : other = name := Option.some.inj h
    have hwords : " lines: " ++ "expected " = " lines: expected " := by decide +kernel
    refine ⟨rfl, "expected " ++ toString expected ++ " fields, line " ++ toString line ++ " has " ++
      toString got, ?_⟩
    simp only [← String.append_assoc, ← htext hwords]
    rfl
  | _ => cases h

end Notice

namespace TextLog

variable {lines : List (List Char)} {i : Nat} {name : String} {reason : Notice}

/-- A line is passed over if it has a name without a definition in force, or not as many values as
that definition has columns. -/
inductive Skips (lines : List (List Char)) (i : Nat) : String → Notice → Prop where
  | undefined {text : List Char} {name : String} {raws : List String} :
      lines[i]? = some text → Text.trim text ≠ [] → values text = name :: raws → name ≠ "FMT" →
      (∀ d, ¬ InForce lines i name d) → Skips lines i name (.undefined name)
  | valueCount {text : List Char} {name : String} {raws : List String} {d : Definition} :
      lines[i]? = some text → Text.trim text ≠ [] → values text = name :: raws → name ≠ "FMT" →
      InForce lines i name d → raws.length ≠ d.columns.length →
      Skips lines i name (.valueCount name d.columns.length (i + 1) raws.length)

theorem readLine_passedOver {table : Table String} {line : Nat} {text : List Char} :
    readLine table line text = .passedOver name reason ↔
      Text.trim text ≠ [] ∧ ∃ raws, values text = name :: raws ∧ name ≠ "FMT" ∧
        ((table.get? name = none ∧ reason = .undefined name) ∨
          ∃ d, table.get? name = some d ∧ raws.length ≠ d.columns.length ∧
            reason = .valueCount name d.columns.length line raws.length) := by
  constructor
  · intro h
    have hne : Text.trim text ≠ [] := by
      intro hblank
      rw [readLine_blank hblank] at h
      cases h
    obtain ⟨first, raws, hvalues⟩ := exists_values text
    rw [readLine_eq hvalues hne] at h
    split at h
    · split at h <;> cases h
    · next hname =>
      split at h
      · next hnone =>
        cases h
        exact ⟨hne, raws, hvalues, hname, .inl ⟨hnone, rfl⟩⟩
      · next d hd =>
        unfold readData at h
        split at h
        · next hlen =>
          cases h
          exact ⟨hne, raws, hvalues, hname, .inr ⟨d, hd, hlen, rfl⟩⟩
        · split at h <;> cases h
  · rintro ⟨hne, raws, hvalues, hname, ⟨hnone, rfl⟩ | ⟨d, hd, hlen, rfl⟩⟩
    · rw [readLine_eq hvalues hne, if_neg hname, hnone]
    · rw [readLine_eq hvalues hne, if_neg hname, hd]
      exact if_pos hlen

theorem skips_iff : Skips lines i name reason ↔ ∃ text, lines[i]? = some text ∧
    readLine (tableAfter lines i) (i + 1) text = .passedOver name reason := by
  have hnone : (tableAfter lines i).get? name = none ↔ ∀ d, ¬ InForce lines i name d := by
    simp only [Option.eq_none_iff_forall_ne_some, ne_eq, get?_tableAfter]
  simp only [readLine_passedOver, hnone, get?_tableAfter]
  constructor
  · rintro (⟨htext, hne, hvalues, hname, habsent⟩ | ⟨htext, hne, hvalues, hname, hd, hlen⟩)
    · exact ⟨_, htext, hne, _, hvalues, hname, .inl ⟨habsent, rfl⟩⟩
    · exact ⟨_, htext, hne, _, hvalues, hname, .inr ⟨_, hd, hlen, rfl⟩⟩
  · rintro ⟨text, htext, hne, raws, hvalues, hname, ⟨habsent, rfl⟩ | ⟨d, hd, hlen, rfl⟩⟩
    · exact .undefined htext hne hvalues hname habsent
    · exact .valueCount htext hne hvalues hname hd hlen

theorem Skips.outcome (h : Skips lines i name reason) : outcome lines i = none := by
  obtain ⟨text, htext, hr⟩ := skips_iff.mp h
  rw [TextLog.outcome, htext, Option.bind_some, hr]
  rfl

theorem Skips.passes? (h : Skips lines i name reason) : reason.passes? = some name := by
  cases h <;> rfl

def reason? (lines : List (List Char)) (name : String) (i : Nat) : Option Notice :=
  lines[i]?.bind fun text =>
    match readLine (tableAfter lines i) (i + 1) text with
    | .passedOver other reason => if other = name then some reason else none
    | .blank | .defines .. | .data _ | .refused _ => none

theorem reason?_eq_some : reason? lines name i = some reason ↔ Skips lines i name reason := by
  rw [skips_iff, reason?, Option.bind_eq_some_iff]
  refine exists_congr fun text => and_congr_right fun _ => ?_
  cases readLine (tableAfter lines i) (i + 1) text with
  | passedOver other why => simp [ite_eq_iff]
  | blank | defines | data | refused => simp

def warnings (name : String) (notices : List Notice) : List Notice :=
  notices.filter fun n => n.passes? = some name

/-- The reason for the first of some lines that is passed over and has this name. -/
def firstReason? (lines : List (List Char)) (name : String) (visited : List Nat) : Option Notice :=
  visited.findSome? (reason? lines name)

theorem firstReason?_eq_none {visited : List Nat} :
    firstReason? lines name visited = none ↔
      ∀ i ∈ visited, ∀ reason, ¬ Skips lines i name reason := by
  rw [firstReason?, List.findSome?_eq_none_iff]
  simp only [Option.eq_none_iff_forall_ne_some, ne_eq, reason?_eq_some]

/-- The notices that some lines give when they are read one after another, and the names that have
been told before and behind them. -/
structure Tells (lines : List (List Char)) (before : List String) (visited : List Nat)
    (notices : List Notice) (behind : List String) : Prop where
  told : ∀ name, name ∈ behind ↔ name ∈ before ∨ (firstReason? lines name visited).isSome
  warned : ∀ name, warnings name notices =
    if name ∈ before then [] else (firstReason? lines name visited).toList
  skips : ∀ n ∈ notices, n.level = .warn → ∃ i ∈ visited, ∃ name, Skips lines i name n

variable {told behind last : List String} {visited more : List Nat} {notices later : List Notice}

theorem Tells.quiet (hlines : ∀ i ∈ visited, ∀ name reason, ¬ Skips lines i name reason)
    (hnotices : ∀ n ∈ notices, n.passes? = none ∧ n.level ≠ .warn) :
    Tells lines told visited notices told := by
  have hfirst (name : String) : firstReason? lines name visited = none :=
    firstReason?_eq_none.mpr fun i hi => hlines i hi name
  refine { told := fun name => by simp [hfirst], warned := fun name => ?_, skips := ?_ }
  · have hnone : warnings name notices = [] :=
      List.filter_eq_nil_iff.mpr fun n hn => by simp [(hnotices n hn).1]
    simp [hfirst, hnone]
  · exact fun n hn hlevel => absurd hlevel (hnotices n hn).2

theorem Tells.refl (lines : List (List Char)) (told : List String) : Tells lines told [] [] told :=
  .quiet (by simp) (by simp)

/-- A line that is passed over is told unless its name has been. -/
theorem Tells.skip (h : Skips lines i name reason) :
    Tells lines told [i] (if name ∈ told then [] else [reason])
      (if name ∈ told then told else name :: told) := by
  have hfirst (other : String) :
      firstReason? lines other [i] = if name = other then some reason else none := by
    obtain ⟨text, htext, hr⟩ := skips_iff.mp h
    have hreason : reason? lines other i = if name = other then some reason else none := by
      rw [reason?, htext, Option.bind_some, hr]
    rw [firstReason?, List.findSome?_singleton, hreason]
  have hname := h.passes?
  by_cases ht : name ∈ told
  · rw [if_pos ht, if_pos ht]
    refine { told := fun other => ?_, warned := fun other => ?_, skips := by simp }
    · by_cases hother : name = other
      · simp [← hother, ht]
      · simp [hfirst, hother]
    · by_cases hother : name = other
      · simp [← hother, ht, warnings]
      · simp [hfirst, hother, warnings]
  · rw [if_neg ht, if_neg ht]
    refine { told := fun other => ?_, warned := fun other => ?_, skips := fun n hn _ => ?_ }
    · by_cases hother : name = other
      · simp [hfirst, hother]
      · simp [hfirst, hother, Ne.symm hother]
    · by_cases hother : name = other
      · simp [hfirst, ← hother, ht, warnings, hname]
      · simp [hfirst, hother, warnings, hname]
    · obtain rfl := List.mem_singleton.mp hn
      exact ⟨i, List.mem_singleton_self i, name, h⟩

theorem Tells.append (h : Tells lines told visited notices behind)
    (hmore : Tells lines behind more later last) :
    Tells lines told (visited ++ more) (notices ++ later) last := by
  have hfirst (name : String) : firstReason? lines name (visited ++ more) =
      (firstReason? lines name visited).or (firstReason? lines name more) := List.findSome?_append
  refine { told := fun name => ?_, warned := fun name => ?_, skips := fun n hn hlevel => ?_ }
  · rw [hmore.told, h.told, hfirst, Option.isSome_or, Bool.or_eq_true, or_assoc]
  · have hsplit : warnings name (notices ++ later) = warnings name notices ++ warnings name later :=
      List.filter_append ..
    rw [hsplit, h.warned, hmore.warned, hfirst]
    by_cases hbefore : name ∈ told
    · have hbehind : name ∈ behind := (h.told name).mpr (.inl hbefore)
      rw [if_pos hbefore, if_pos hbehind, if_pos hbefore, List.nil_append]
    · cases hreason : firstReason? lines name visited with
      | none =>
        have hbehind : name ∉ behind := by simp [h.told, hbefore, hreason]
        simp [hbefore, hbehind]
      | some reason =>
        have hbehind : name ∈ behind := by simp [h.told, hreason]
        simp [hbefore, hbehind]
  · rcases List.mem_append.mp hn with hn | hn
    · obtain ⟨i, hi, hskips⟩ := h.skips n hn hlevel
      exact ⟨i, List.mem_append_left _ hi, hskips⟩
    · obtain ⟨i, hi, hskips⟩ := hmore.skips n hn hlevel
      exact ⟨i, List.mem_append_right _ hi, hskips⟩

theorem Tells.silent (h : Tells lines told visited notices behind) {n : Notice}
    (hn : n.passes? = none ∧ n.level ≠ .warn) :
    Tells lines told visited (notices ++ [n]) behind := by
  have hquiet : Tells lines behind [] [n] behind :=
    .quiet (by simp) (by simpa using hn)
  simpa using h.append hquiet

structure ReadsOn (lines : List (List Char)) (l : TextLog) (notices : List Notice) (l' : TextLog) :
    Prop where
  stands : Stands lines l'
  le : l.line ≤ l'.line
  tells : Tells lines l.told (List.range' l.line (l'.line - l.line)) notices l'.told

variable {l l' l'' : TextLog}

theorem Stands.readsOn_refl (h : Stands lines l) : ReadsOn lines l [] l where
  stands := h
  le := Nat.le_refl _
  tells := by
    rw [Nat.sub_self]
    exact Tells.refl lines l.told

theorem ReadsOn.trans (h : ReadsOn lines l notices l') (hmore : ReadsOn lines l' later l'') :
    ReadsOn lines l (notices ++ later) l'' where
  stands := hmore.stands
  le := Nat.le_trans h.le hmore.le
  tells := by
    have hrange : List.range' l.line (l''.line - l.line) =
        List.range' l.line (l'.line - l.line) ++ List.range' l'.line (l''.line - l'.line) := by
      have hle := h.le
      have hle' := hmore.le
      have hlength : l''.line - l.line = l'.line - l.line + (l''.line - l'.line) := by omega
      have hstart : l.line + (l'.line - l.line) = l'.line := by omega
      rw [hlength, ← List.range'_append_1, hstart]
    rw [hrange]
    exact h.tells.append hmore.tells

/-- The next line is read on to, and with it reading either goes on or comes to an item. -/
theorem Stands.readsOn_line (h : Stands lines l) {text : List Char} {rest : List (List Char)}
    (hrest : l.rest = text :: rest) : ∃ told notices,
    let behind := { l with
      line := l.line + 1, rest, told
      table := learn l.table (readLine l.table (l.line + 1) text) }
    ReadsOn lines l notices behind ∧ ∀ heard,
      TextLog.advance l heard (text :: rest) =
          TextLog.advance behind (notices.reverse ++ heard) rest ∨
        ∃ item, TextLog.advance l heard (text :: rest) =
          { item := some item, notices := heard.reverse ++ notices, next := behind } := by
  obtain ⟨htext, hstep⟩ := h.step hrest
  have hskips (name : String) (reason : Notice) : Skips lines l.line name reason ↔
      readLine l.table (l.line + 1) text = .passedOver name reason := by
    rw [skips_iff, h.table]
    simp [htext]
  have hreads {told : List String} {notices : List Notice}
      (htells : Tells lines l.told [l.line] notices told) :
      ReadsOn lines l notices { l with
        line := l.line + 1, rest, told
        table := learn l.table (readLine l.table (l.line + 1) text) } := by
    refine { stands := hstep told, le := Nat.le_succ _, tells := ?_ }
    rw [Nat.add_sub_cancel_left]
    exact htells
  have hquiet {notices : List Notice}
      (hline : ∀ name reason, readLine l.table (l.line + 1) text ≠ .passedOver name reason)
      (hnotices : ∀ n ∈ notices, n.passes? = none ∧ n.level ≠ .warn) :=
    hreads (Tells.quiet (by simpa [hskips] using hline) hnotices)
  cases hr : readLine l.table (l.line + 1) text with
  | blank =>
    rw [hr] at hquiet
    refine ⟨l.told, [], hquiet (by simp) (by simp), fun heard => .inl ?_⟩
    simp only [TextLog.advance, hr]
    rfl
  | passedOver name reason =>
    have htells := hreads (Tells.skip ((hskips name reason).mpr hr))
    rw [hr] at htells
    refine ⟨_, _, htells, fun heard => .inl ?_⟩
    simp only [TextLog.advance, hr, h.limit, Notice.upTo_trace]
    split <;> rfl
  | data r =>
    rw [hr] at hquiet
    refine ⟨l.told, [], hquiet (by simp) (by simp), fun heard => .inr ⟨.ok r, ?_⟩⟩
    simp only [TextLog.advance, hr, List.append_nil]
    rfl
  | defines d r =>
    rw [hr] at hquiet
    refine ⟨l.told, [.learnedOnLine d.name (l.line + 1)], hquiet (by simp) ?_,
      fun heard => .inr ⟨.ok r, ?_⟩⟩
    · simp [Notice.passes?, Notice.level]
    · simp only [TextLog.advance, hr, h.limit, Notice.upTo_trace, List.singleton_append,
        List.reverse_cons]
      rfl
  | refused e =>
    rw [hr] at hquiet
    refine ⟨l.told, [], hquiet (by simp) (by simp), fun heard => .inr ⟨.error e, ?_⟩⟩
    simp only [TextLog.advance, hr, List.append_nil]
    rfl

theorem Stands.readsOn_advance (h : Stands lines l) (heard : List Notice) : ∃ notices,
    (TextLog.advance l heard l.rest).notices = heard.reverse ++ notices ∧
      ReadsOn lines l notices (TextLog.advance l heard l.rest).next := by
  -- On the lines that are left: what the next line tells, and then what those behind it tell.
  induction hrest : l.rest generalizing l heard with
  | nil =>
    have hsame : { l with rest := [] } = l := by rw [← hrest]
    rw [TextLog.advance, hsame]
    exact ⟨[], (List.append_nil _).symm, h.readsOn_refl⟩
  | cons text rest ih =>
    obtain ⟨told, notices, hreads, hadvance⟩ := h.readsOn_line hrest
    rcases hadvance heard with hpass | ⟨item, hyield⟩
    · obtain ⟨more, hmore, hrests⟩ := ih hreads.stands (notices.reverse ++ heard) rfl
      rw [hpass, hmore, List.reverse_append, List.reverse_reverse, List.append_assoc]
      exact ⟨notices ++ more, rfl, hreads.trans hrests⟩
    · rw [hyield]
      exact ⟨notices, rfl, hreads⟩

theorem Stands.readsOn_pull (h : Stands lines l) : ReadsOn lines l l.pull.notices l.pull.next := by
  obtain ⟨notices, hnotices, hreads⟩ := h.readsOn_advance []
  rw [TextLog.pull, hnotices]
  exact hreads

end TextLog

end DataFlash
