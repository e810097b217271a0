import DataFlash.Program
import DataFlash.Proofs.Feed

namespace DataFlash

/-- A pull that comes to the same as another, and gives those of its notices that pass a limit. -/
structure Pull.Under {σ α : Type} (limit : Level) (R : σ → σ → Prop) (p q : Pull σ α) : Prop where
  item : q.item = p.item
  notices : q.notices = Notice.upTo limit p.notices
  next : R p.next q.next

theorem Pull.Under.after {σ α : Type} {limit : Level} {R : σ → σ → Prop} {p q : Pull σ α}
    (h : p.Under limit R q) (earlier : List Notice) :
    (p.after earlier).Under limit R (q.after (Notice.upTo limit earlier)) where
  item := h.item
  notices := by rw [Pull.after, Pull.after, h.notices, Notice.upTo_append]
  next := h.next

def stepUpTo {β : Type} (limit : Level) (step : List Notice × β) : List Notice × β :=
  (Notice.upTo limit step.1, step.2)

namespace Feed

variable {σ α : Type} [Feed σ α] {limit : Level} {R : σ → σ → Prop}

theorem find_under (step : ∀ s t, R s t → (pull s).Under limit R (pull t)) (keep : α → Bool)
    {s t : σ} (h : R s t) : (find keep s).Under limit R (find keep t) := by
  induction s using run_induction generalizing t with
  | ended s hnone =>
    have hp := step s t h
    rwa [find_kept (by simp [hnone]), find_kept (by simp [hp.item, hnone])]
  | pulled s item _ ih =>
    have hp := step s t h
    rcases kept_or_passed keep s with hk | ⟨a, ha, hk⟩
    · rwa [find_kept hk, find_kept (by rwa [hp.item])]
    · rw [find_passed ha hk, find_passed (hp.item.trans ha) hk, hp.notices]
      exact (ih hp.next).after _

theorem run_under (step : ∀ s t, R s t → (pull s).Under limit R (pull t)) {s t : σ} (h : R s t) :
    (run t).steps = (run s).steps.map (stepUpTo limit) ∧
      (run t).closing = Notice.upTo limit (run s).closing := by
  induction s using run_induction generalizing t with
  | ended s hnone =>
    have hp := step s t h
    rw [run_none hnone, run_none (hp.item.trans hnone)]
    exact ⟨rfl, hp.notices⟩
  | pulled s item hsome ih =>
    have hp := step s t h
    obtain ⟨hsteps, hclosing⟩ := ih hp.next
    rw [run_some hsome, run_some (hp.item.trans hsome)]
    refine ⟨?_, hclosing⟩
    simp only [Run.after, hsteps, hp.notices, List.singleton_append, List.map_cons, stepUpTo]

end Feed

/-- A log that tells everything, and the same with a limit. -/
def BinaryLog.Under (limit : Level) (l l' : BinaryLog) : Prop :=
  l.limit = .trace ∧ l' = { l with limit }

def TextLog.Under (limit : Level) (l l' : TextLog) : Prop :=
  l.limit = .trace ∧ l' = { l with limit }

variable {limit : Level}

theorem BinaryLog.pull_under {l l' : BinaryLog} (h : BinaryLog.Under limit l l') :
    l.pull.Under limit (BinaryLog.Under limit) l'.pull := by
  obtain ⟨htrace, rfl⟩ := h
  unfold pull
  generalize seek l.table 0 l.rest = found
  obtain ⟨skipped, rest, framing⟩ := found
  cases framing with
  | message | cut =>
    refine ⟨rfl, ?_, htrace, rfl⟩
    simp only [yield, htrace, Notice.upTo_trace, Notice.upTo_append]
  | tail | noise =>
    refine ⟨rfl, ?_, htrace, rfl⟩
    simp only [yield, htrace, Notice.upTo_trace]

theorem TextLog.advance_under {l : TextLog} (h : l.limit = .trace) (heard : List Notice)
    (rest : List (List Char)) :
    (advance l heard rest).Under limit (TextLog.Under limit)
      (advance { l with limit } (Notice.upTo limit heard) rest) := by
  induction rest generalizing l heard with
  | nil => exact ⟨rfl, (Notice.upTo_reverse ..).symm, h, rfl⟩
  | cons text rest ih =>
    unfold advance
    cases hr : readLine l.table (l.line + 1) text with
    | blank =>
      simp only [hr]
      exact ih (l := { l with line := l.line + 1, rest }) h heard
    | passedOver name reason =>
      simp only [hr]
      split
      · exact ih (l := { l with line := l.line + 1, rest }) h heard
      · rw [← Notice.upTo_append, h, Notice.upTo_trace]
        exact ih (l := { l with line := l.line + 1, rest, told := name :: l.told, limit := .trace })
          rfl _
    | data r | refused e =>
      simp only [hr]
      exact ⟨rfl, (Notice.upTo_reverse ..).symm, h, rfl⟩
    | defines d r =>
      simp only [hr]
      rw [← Notice.upTo_append, h, Notice.upTo_trace]
      exact ⟨rfl, (Notice.upTo_reverse ..).symm, rfl, rfl⟩

theorem TextLog.pull_under {l l' : TextLog} (h : TextLog.Under limit l l') :
    l.pull.Under limit (TextLog.Under limit) l'.pull := by
  obtain ⟨htrace, rfl⟩ := h
  exact advance_under htrace [] l.rest

inductive Log.Under (limit : Level) : Log → Log → Prop where
  | binary {l l' : BinaryLog} :
    BinaryLog.Under limit l l' → Log.Under limit (.binary l) (.binary l')
  | text {l l' : TextLog} : TextLog.Under limit l l' → Log.Under limit (.text l) (.text l')

namespace Log

theorem under_ofBytes (bytes : List UInt8) (kind : LogKind) (limit : Level) :
    (ofBytes bytes kind).Under limit (ofBytes bytes kind limit) := by
  cases kind with
  | binary => exact .binary ⟨rfl, rfl⟩
  | text => exact .text ⟨rfl, rfl⟩

theorem Under.limits {l l' : Log} (h : l.Under limit l') : l.limit = .trace ∧ l'.limit = limit := by
  cases h with
  | binary h | text h =>
    obtain ⟨htrace, rfl⟩ := h
    exact ⟨htrace, rfl⟩

theorem Under.rewind {l l' : Log} (h : l.Under limit l') : l.rewind.Under limit l'.rewind := by
  cases h with
  | binary h =>
    obtain ⟨htrace, rfl⟩ := h
    exact .binary ⟨htrace, rfl⟩
  | text h =>
    obtain ⟨htrace, rfl⟩ := h
    exact .text ⟨htrace, rfl⟩

theorem pull_under (l l' : Log) (h : l.Under limit l') :
    (Feed.pull l).Under limit (Log.Under limit) (Feed.pull l') := by
  cases h with
  | binary h =>
    have hp := BinaryLog.pull_under h
    exact ⟨hp.item, hp.notices, .binary hp.next⟩
  | text h =>
    have hp := TextLog.pull_under h
    exact ⟨hp.item, hp.notices, .text hp.next⟩

end Log

theorem Clock.scan_under {l l' : Log} (h : l.Under limit l') :
    (scan l' limit).clock = (scan l).clock ∧
      (scan l' limit).notices = Notice.upTo limit (scan l).notices ∧
      (scan l).next.Under limit (scan l' limit).next := by
  have hp := Feed.find_under Log.pull_under (fun r => (ofGps? r).isSome) h
  simp only [scan, hp.item]
  generalize (Feed.find (fun r => (ofGps? r).isSome) l).item = item
  cases item with
  | none => exact ⟨rfl, by simp [hp.notices, Notice.upTo_append], hp.next⟩
  | some item =>
    cases item with
    | error e => exact ⟨rfl, hp.notices, hp.next⟩
    | ok r => exact ⟨rfl, by simp [hp.notices, Notice.upTo_append], hp.next⟩

namespace Reader

def Under (limit : Level) (r r' : Reader) : Prop :=
  ∃ log, r.log.Under limit log ∧ r' = { r with log }

inductive Opens (limit : Level) : Except LogError Reader → Except LogError Reader → Prop where
  | error (e : LogError) : Opens limit (.error e) (.error e)
  | ok {r r' : Reader} : Under limit r r' → Opens limit (.ok r) (.ok r')

theorem ofBytes_under (bytes : List UInt8) (kind : LogKind) (config : Config) (limit : Level) :
    Opens limit (ofBytes bytes kind config).value (ofBytes bytes kind config limit).value ∧
      (ofBytes bytes kind config limit).notices =
        Notice.upTo limit (ofBytes bytes kind config).notices := by
  have hlog := Log.under_ofBytes bytes kind limit
  unfold ofBytes
  cases config.clock with
  | boot => exact ⟨.ok ⟨_, hlog, rfl⟩, rfl⟩
  | gpsInterpolated =>
    obtain ⟨hclock, hnotices, hnext⟩ := Clock.scan_under hlog
    refine ⟨?_, hnotices⟩
    simp only [hclock]
    cases (Clock.scan (Log.ofBytes bytes kind)).clock with
    | error e => exact .error e
    | ok clock => exact .ok ⟨_, hnext.rewind, rfl⟩

theorem ofFile_under (path : String) (contents : Except Fault (List UInt8)) (config : Config)
    (limit : Level) :
    Opens limit (ofFile path contents config).value (ofFile path contents config limit).value ∧
      (ofFile path contents config limit).notices =
        Notice.upTo limit (ofFile path contents config).notices := by
  cases contents with
  | error fault => exact ⟨.error _, by simp [ofFile]⟩
  | ok bytes =>
    cases hkind : LogKind.detect path bytes with
    | error e =>
      simp only [ofFile, hkind, Notice.upTo_trace, and_true]
      exact .error e
    | ok kind =>
      obtain ⟨hvalue, hnotices⟩ := ofBytes_under bytes kind config limit
      simp only [ofFile, hkind, hnotices, Notice.upTo_trace, Notice.upTo_append, and_true]
      exact hvalue

end Reader

namespace PowerFeed

def Under (limit : Level) (f f' : PowerFeed) : Prop := f.reader.Under limit f'.reader

theorem pull_under (f f' : PowerFeed) (h : f.Under limit f') :
    (Feed.pull f).Under limit (Under limit) (Feed.pull f') := by
  obtain ⟨r⟩ := f
  obtain ⟨_⟩ := f'
  obtain ⟨log, hlog, rfl⟩ := h
  have hp := Feed.find_under Log.pull_under
    (fun record : Record => record.name == PowerStatus.recordName) hlog
  obtain ⟨htrace, hlimit⟩ := hlog.limits
  refine ⟨?_, ?_, _, hp.next, rfl⟩
  · simp only [Feed.pull, pull, Reader.receive, Reader.find, hp.item]
  · simp only [Feed.pull, pull, Reader.receive, Reader.find, hp.item, hp.notices, htrace, hlimit,
      Notice.upTo_trace, Notice.upTo_append]

end PowerFeed

theorem Report.proceed_under (names : BitNames) (closing : List Notice) {p : Progress}
    (h : p.limit = .trace) (steps : List (List Notice × Except LogError PowerStatus)) :
    proceed names (Notice.upTo limit closing) { p with heard := Notice.upTo limit p.heard, limit }
        (steps.map (stepUpTo limit)) =
      { proceed names closing p steps with
        notices := Notice.upTo limit (proceed names closing p steps).notices } := by
  induction steps generalizing p with
  | nil =>
    simp only [List.map_nil, proceed, Progress.finish, h, Notice.upTo_trace, Notice.upTo_append,
      Notice.upTo_reverse]
  | cons step rest ih =>
    obtain ⟨notices, item⟩ := step
    cases item with
    | error e => simp [proceed, stepUpTo, Progress.finish, Notice.upTo_append, Notice.upTo_reverse]
    | ok status =>
      simp only [List.map_cons, stepUpTo, proceed, ← Notice.upTo_reverse, ← Notice.upTo_append]
      cases (p.tracker.observe status.flags).1 with
      | none => exact ih (p := { p with
          tracker := (p.tracker.observe status.flags).2
          records := p.records + 1
          heard := notices.reverse ++ p.heard }) h
      | some d =>
        dsimp only
        generalize p.sink.write _ = written
        obtain ⟨sink, room⟩ := written
        cases room with
        | true => exact ih (p := { p with
            tracker := (p.tracker.observe status.flags).2
            records := p.records + 1
            lines := p.lines + 1
            heard := notices.reverse ++ p.heard
            sink }) h
        | false => simp [Progress.finish, Notice.upTo_append, Notice.upTo_reverse]

theorem Report.changes_under {σ : Type} (names : BitNames) {run run' : Run σ PowerStatus}
    (hsteps : run'.steps = run.steps.map (stepUpTo limit))
    (hclosing : run'.closing = Notice.upTo limit run.closing) (sink : Sink) :
    changes names run' sink limit = { changes names run sink with
      notices := Notice.upTo limit (changes names run sink).notices } := by
  rw [changes, hsteps, hclosing]
  exact proceed_under names run.closing (p := { sink }) rfl run.steps

/-- A session with a limit comes to the same as one that tells everything, and gives those of its
notices that pass the limit. -/
theorem Program.session_under (path : String) (contents : Except Fault (List UInt8)) (now : Nat)
    (limit : Level) :
    session path contents now limit = { session path contents now with
      notices := Notice.upTo limit (session path contents now).notices } := by
  obtain ⟨hvalue, hnotices⟩ := Reader.ofFile_under path contents {} limit
  simp only [session]
  generalize Reader.ofFile path contents {} = opened at *
  generalize Reader.ofFile path contents {} limit = limited at *
  obtain ⟨value, notices⟩ := opened
  obtain ⟨value', notices'⟩ := limited
  obtain rfl : notices' = Notice.upTo limit notices := hnotices
  cases hvalue with
  | error e => simp only [Notice.upTo_append, Notice.upTo_trace]
  | @ok r r' hr =>
    obtain ⟨hsteps, hclosing⟩ := Feed.run_under PowerFeed.pull_under
      (s := { reader := r }) (t := { reader := r' }) hr
    obtain ⟨log, -, rfl⟩ := hr
    simp only [Report.changes_under BitNames.powerStatus hsteps hclosing, Notice.upTo_append,
      Notice.upTo_trace]

end DataFlash
