import DataFlash.Proofs.PassedOver
import DataFlash.Proofs.Restart

namespace DataFlash

/-- What is done at one time with a log: the lines that are read, by their positions, and the
notices that are given. -/
structure Stage where
  lines : List Nat
  notices : List Notice

def stagesOf {σ κ : Type} (step : σ → κ → Stage × σ) (s : σ) : List κ → List Stage
  | [] => []
  | k :: more => (step s k).1 :: stagesOf step (step s k).2 more

namespace TextLog

/-- Stages at the start of which some names have been told. -/
inductive Accounted (lines : List (List Char)) : List String → List Stage → Prop where
  | nil {told : List String} : Accounted lines told []
  | cons {told behind : List String} {stage : Stage} {more : List Stage} :
      Tells lines told stage.lines stage.notices behind → Accounted lines behind more →
      Accounted lines told (stage :: more)

variable {lines : List (List Char)} {told : List String} {stages : List Stage}

theorem Accounted.tells (h : Accounted lines told stages) : ∃ behind,
    Tells lines told (stages.flatMap Stage.lines) (stages.flatMap Stage.notices) behind := by
  induction h with
  | nil => exact ⟨_, Tells.refl lines _⟩
  | cons htells _ ih =>
    obtain ⟨behind, hmore⟩ := ih
    exact ⟨behind, htells.append hmore⟩

theorem Accounted.skips (h : Accounted lines told stages) {stage : Stage}
    (hstage : stage ∈ stages) : ∀ n ∈ stage.notices, n.level = .warn →
      ∃ i ∈ stage.lines, ∃ name, Skips lines i name n := by
  induction h with
  | nil => cases hstage
  | cons htells _ ih =>
    rcases List.mem_cons.mp hstage with rfl | hmore
    · exact htells.skips
    · exact ih hmore

/-- Where each stage tells of its lines, all of them do. -/
theorem accounted_stagesOf {σ κ : Type} {step : σ → κ → Stage × σ} {P : σ → List String → Prop}
    (hstep : ∀ s k told, P s told → ∃ behind,
      Tells lines told (step s k).1.lines (step s k).1.notices behind ∧ P (step s k).2 behind)
    {s : σ} (h : P s told) (calls : List κ) : Accounted lines told (stagesOf step s calls) := by
  induction calls generalizing s told with
  | nil => exact .nil
  | cons k calls ih =>
    obtain ⟨behind, htells, hnext⟩ := hstep s k told h
    exact .cons htells (ih hnext)

/-- Of a name whose lines are passed over it is told once, for the first of these lines that is
read. Other lines are not warned of. -/
structure WarnsOnce (lines : List (List Char)) (stages : List Stage) : Prop where
  once : ∀ name, (∃ i ∈ stages.flatMap Stage.lines, ∃ reason, Skips lines i name reason) →
    ∃ before i after reason, stages.flatMap Stage.lines = before ++ i :: after ∧
      (∀ j ∈ before, ∀ other, ¬ Skips lines j name other) ∧ Skips lines i name reason ∧
      warnings name (stages.flatMap Stage.notices) = [reason] ∧ reason.level = .warn ∧
      ∃ why, reason.text = "Skipping " ++ name ++ " lines: " ++ why
  never : ∀ name, (∀ i ∈ stages.flatMap Stage.lines, ∀ reason, ¬ Skips lines i name reason) →
    warnings name (stages.flatMap Stage.notices) = []
  skipped : ∀ stage ∈ stages, ∀ n ∈ stage.notices, n.level = .warn →
    ∃ i ∈ stage.lines, ∃ name, Skips lines i name n ∧ outcome lines i = none

theorem Accounted.warnsOnce (h : Accounted lines [] stages) : WarnsOnce lines stages := by
  obtain ⟨behind, htells⟩ := h.tells
  have hwarned (name : String) : warnings name (stages.flatMap Stage.notices) =
      (firstReason? lines name (stages.flatMap Stage.lines)).toList := htells.warned name
  refine { once := fun name hexists => ?_, never := fun name hnone => ?_, skipped := ?_ }
  · obtain ⟨i, hi, reason, hskips⟩ := hexists
    cases hfirst : firstReason? lines name (stages.flatMap Stage.lines) with
    | none => exact absurd hskips (firstReason?_eq_none.mp hfirst i hi reason)
    | some first =>
      obtain ⟨before, j, after, hsplit, hj, hbefore⟩ := List.findSome?_eq_some_iff.mp hfirst
      have hskip := reason?_eq_some.mp hj
      have hearlier := firstReason?_eq_none.mp (List.findSome?_eq_none_iff.mpr hbefore)
      have honly : warnings name (stages.flatMap Stage.notices) = [first] := by
        rw [hwarned, hfirst]
        rfl
      exact ⟨before, j, after, first, hsplit, hearlier, hskip, honly,
        Notice.text_of_passes? hskip.passes?⟩
  · rw [hwarned, firstReason?_eq_none.mpr hnone]
    rfl
  · intro stage hstage n hn hlevel
    obtain ⟨i, hi, name, hskips⟩ := h.skips hstage n hn hlevel
    exact ⟨i, hi, name, hskips, hskips.outcome⟩

end TextLog

namespace Log

def linesRead : Log → Nat
  | binary _ => 0
  | text l => l.line

def between (l l' : Log) : List Nat := List.range' l.linesRead (l'.linesRead - l.linesRead)

def heard (l : Log) : Call → List Notice
  | .pull => l.pull.notices
  | .scan => (Clock.scan l).notices
  | .drain => (Feed.run l).notices
  | .rewind => []

def stage (l : Log) (call : Call) : Stage × Log :=
  let next := (l.perform call).2
  ({ lines := l.between next, notices := l.heard call }, next)

def ReadsOn (lines : List (List Char)) (l : Log) (notices : List Notice) (l' : Log) : Prop :=
  ∀ t, l = text t → t.Stands lines → ∃ t', l' = text t' ∧ t.ReadsOn lines notices t'

theorem composes_readsOn (lines : List (List Char)) : Feed.Composes (ReadsOn lines) where
  refl _ t ht hstands := ⟨t, ht, hstands.readsOn_refl⟩
  trans h hmore t ht hstands := by
    obtain ⟨t', ht', hreads⟩ := h t ht hstands
    obtain ⟨t'', ht'', hlater⟩ := hmore t' ht' hreads.stands
    exact ⟨t'', ht'', hreads.trans hlater⟩
  pull l t ht hstands := by
    subst ht
    exact ⟨_, rfl, hstands.readsOn_pull⟩

def Told (lines : List (List Char)) (l : Log) (told : List String) : Prop :=
  ∃ t, l = text t ∧ t.Stands lines ∧ t.told = told

variable {lines : List (List Char)} {l l' : Log} {notices : List Notice} {told : List String}

theorem told_ofLines (lines : List (List Char)) : Told lines (text (.ofLines lines)) [] :=
  ⟨_, rfl, TextLog.stands_ofLines lines, rfl⟩

theorem Told.tells (h : Told lines l told) (hreads : ReadsOn lines l notices l') :
    ∃ behind, TextLog.Tells lines told (l.between l') notices behind ∧ Told lines l' behind := by
  obtain ⟨t, rfl, hstands, rfl⟩ := h
  obtain ⟨t', rfl, hon⟩ := hreads t rfl hstands
  exact ⟨t'.told, hon.tells, t', rfl, hon.stands, rfl⟩

theorem Told.rewind (h : Told lines l told) :
    TextLog.Tells lines told (l.between l.rewind) [] told ∧ Told lines l.rewind told := by
  obtain ⟨t, rfl, hstands, rfl⟩ := h
  have hnone : (text t).between (text t).rewind = [] := by
    simp [between, linesRead, Log.rewind, TextLog.rewind]
  rw [hnone]
  exact ⟨TextLog.Tells.refl lines t.told, _, rfl, hstands.rewind, rfl⟩

theorem Told.scan (h : Told lines l told) : ∃ behind,
    TextLog.Tells lines told (l.between (Clock.scan l).next) (Clock.scan l).notices behind ∧
      Told lines (Clock.scan l).next behind := by
  obtain ⟨behind, htells, htold⟩ :=
    h.tells ((composes_readsOn lines).find (fun r => (Clock.ofGps? r).isSome) l)
  rw [Clock.next_scan]
  refine ⟨behind, ?_, htold⟩
  unfold Clock.scan
  dsimp only
  split
  · exact htells.silent ⟨rfl, by simp [Notice.level]⟩
  · exact htells
  · exact htells.silent ⟨rfl, by simp [Notice.level]⟩

theorem Told.stage (h : Told lines l told) (call : Call) : ∃ behind,
    TextLog.Tells lines told (l.stage call).1.lines (l.stage call).1.notices behind ∧
      Told lines (l.stage call).2 behind := by
  cases call with
  | pull => exact h.tells ((composes_readsOn lines).pull l)
  | scan => exact h.scan
  | drain => exact h.tells ((composes_readsOn lines).run l)
  | rewind => exact ⟨told, h.rewind⟩

end Log

namespace Reader

def heard (r : Reader) : Query → List Notice
  | .next => r.next.notices
  | .receive name => (r.receive name).notices
  | .messages name atMost => (Feed.take atMost (r.messages name)).notices
  | .drain => (Feed.run r).notices
  | .rewind => []

def stage (r : Reader) (query : Query) : Stage × Reader :=
  let next := (r.ask query).2
  ({ lines := r.log.between next.log, notices := r.heard query }, next)

def opening (bytes : List UInt8) (config : Config) : Stage where
  lines :=
    let log := Log.ofBytes bytes .text
    match config.clock with
    | .boot => []
    | .gpsInterpolated => log.between (Clock.scan log).next
  notices := (ofBytes bytes .text config).notices

/-- The opening of a text log and the queries after it. If it is not opened there are none. -/
def history (bytes : List UInt8) (config : Config) (queries : List Query) : List Stage :=
  opening bytes config ::
    match (ofBytes bytes .text config).value with
    | .ok r => stagesOf stage r queries
    | .error _ => []

variable {lines : List (List Char)} {told : List String}

theorem composes_readsOn (lines : List (List Char)) :
    Feed.Composes fun (r : Reader) notices r' => Log.ReadsOn lines r.log notices r'.log :=
  (Log.composes_readsOn lines).comap Reader.log fun r : Reader =>
    (Log.composes_readsOn lines).find (fun record => r.config.admits record.name) r.log

theorem composes_messages (lines : List (List Char)) :
    Feed.Composes fun (m : Messages) notices m' =>
      Log.ReadsOn lines m.reader.log notices m'.reader.log :=
  (Log.composes_readsOn lines).comap (fun m : Messages => m.reader.log) fun m =>
    (Log.composes_readsOn lines).find (fun record => record.name == m.name) m.reader.log

theorem tells_stage {r : Reader} (h : r.log.Told lines told) (query : Query) : ∃ behind,
    TextLog.Tells lines told (r.stage query).1.lines (r.stage query).1.notices behind ∧
      (r.stage query).2.log.Told lines behind := by
  cases query with
  | next => exact h.tells ((composes_readsOn lines).pull r)
  | receive name =>
    exact h.tells ((Log.composes_readsOn lines).find (fun record => record.name == name) r.log)
  | messages name atMost =>
    exact h.tells ((composes_messages lines).take atMost (r.messages name))
  | drain => exact h.tells ((composes_readsOn lines).run r)
  | rewind => exact ⟨told, h.rewind⟩

theorem accounted_history (bytes : List UInt8) (config : Config) (queries : List Query) :
    TextLog.Accounted (Text.lines (Utf8.decode bytes)) [] (history bytes config queries) := by
  have hstart := Log.told_ofLines (Text.lines (Utf8.decode bytes))
  have hqueries {r : Reader} {told : List String}
      (h : r.log.Told (Text.lines (Utf8.decode bytes)) told) :=
    TextLog.accounted_stagesOf (P := fun (r : Reader) => r.log.Told _)
      (fun r query told h => tells_stage h query) h queries
  unfold history opening ofBytes
  cases config.clock with
  | boot => exact .cons (.refl _ []) (hqueries hstart)
  | gpsInterpolated =>
    obtain ⟨behind, htells, htold⟩ := hstart.scan
    refine .cons htells ?_
    dsimp only
    cases (Clock.scan (Log.ofBytes bytes .text)).clock with
    | error e => exact .nil
    | ok clock => exact hqueries htold.rewind.2

end Reader

/-- Whatever is done with a text log, of each name whose lines are passed over it is told once, with
the reason for the first of these lines that is read, and no other line is warned of. The same goes
for a reader, its opening included. -/
theorem warns_once :
    (∀ lines calls, TextLog.WarnsOnce lines
        (stagesOf Log.stage (.text (TextLog.ofLines lines)) calls)) ∧
      ∀ bytes config queries, TextLog.WarnsOnce (Text.lines (Utf8.decode bytes))
        (Reader.history bytes config queries) := by
  refine ⟨fun lines calls => ?_, fun bytes config queries => ?_⟩
  · have haccounted := TextLog.accounted_stagesOf (P := Log.Told lines)
      (fun l call told h => h.stage call) (Log.told_ofLines lines) calls
    exact haccounted.warnsOnce
  · exact (Reader.accounted_history bytes config queries).warnsOnce

/-- A name is told once, though its lines are passed over for two reasons and are read again. -/
example :
    let lines := ["M, 1", "FMT, 64, 4, M, B, A", "M, 1, 2"].map String.toList
    let stages := stagesOf Log.stage (.text (.ofLines lines)) [.drain, .rewind, .scan]
    stages.map Stage.lines = [[0, 1, 2], [], [0, 1, 2]] ∧
      (TextLog.warnings "M" (stages.flatMap Stage.notices)).map Notice.text =
        ["Skipping M lines: no FMT definition"] := by
  decide +kernel

end DataFlash
