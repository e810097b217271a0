import DataFlash.Proofs.Outcome

namespace DataFlash

def Request.withLimit (limit : Level) : Request → Request
  | report log _ => .report log limit
  | request => request

namespace CommandLine

inductive Word where
  | flag (f : Option Flag)
  | path (text : String)
  deriving DecidableEq

/-- What an argument in front of the end of options says: an argument of letters has a flag for each
letter. -/
def wordsOf (argument : String) : List Word :=
  match argument.toList with
  | '-' :: '-' :: name => [.flag (Flag.ofWord? (String.ofList name))]
  | '-' :: c :: letters => (c :: letters).map fun c => .flag (Flag.ofLetter? c)
  | _ => [.path argument]

/-- What the arguments say one after another. After `--` every argument is a path. -/
def words : List String → List Word
  | [] => []
  | argument :: rest =>
    if argument = "--" then rest.map .path else wordsOf argument ++ words rest

def Options.obey (o : Options) : Word → Except Request Options
  | .flag f => o.apply f
  | .path text => o.setLog text

def requested (words : List Word) : Request :=
  match words.foldlM Options.obey {} with
  | .error request => request
  | .ok o => match o.log with
    | none => .nothing
    | some log => .report log o.limit

theorem read_eq (o : Options) (argument : String) :
    o.read argument = (wordsOf argument).foldlM Options.obey o := by
  unfold Options.read
  fun_cases wordsOf argument with
  | case1 name h => simp [h, Options.obey]
  | case2 c letters hc h =>
    rw [List.foldlM_map]
    simp [h, Options.obey]
  | case3 hname hletters =>
    split
    · next h => exact (hname _ h).elim
    · next h => exact (hletters _ _ h).elim
    · simp [Options.obey]

theorem readAll_eq (o : Options) (arguments : List String) :
    o.readAll arguments = (words arguments).foldlM Options.obey o := by
  induction arguments generalizing o with
  | nil => rfl
  | cons argument rest ih =>
    unfold Options.readAll words
    split
    · rw [List.foldlM_map]
      rfl
    · rw [List.foldlM_append, ← read_eq]
      cases o.read argument with
      | error request => rfl
      | ok o => exact ih o

theorem request_eq_requested (arguments : List String) :
    request arguments = requested (words arguments) := by
  rw [request, readAll_eq]
  rfl

def Word.isVerbosity : Word → Bool
  | .flag (some .verbose) | .flag (some .quiet) => true
  | _ => false

/-- What the arguments say but for how much is told. -/
def substance (arguments : List String) : List Word :=
  (words arguments).filter (!·.isVerbosity)

def limitOf (words : List Word) : Level :=
  if .flag (some .quiet) ∈ words then .error
  else match words.count (.flag (some .verbose)) with
    | 0 => .warn
    | 1 => .info
    | 2 => .debug
    | _ => .trace

/-- Words are refused, or the options come from the words without those on verbosity, which only
add to what is told. -/
theorem foldlM_obey (words : List Word) {o p : Options} (h : o.log = p.log) :
    words.foldlM Options.obey o = .error .refused ∨ words.foldlM Options.obey o =
      ((words.filter (!·.isVerbosity)).foldlM Options.obey p).map fun last =>
        { verbose := o.verbose + words.count (.flag (some .verbose))
          quiet := o.quiet || words.contains (.flag (some .quiet))
          log := last.log } := by
  -- A word on verbosity is obeyed by `o` alone, any other word by both.
  induction words generalizing o p with
  | nil => exact .inr (by simp [pure, Except.pure, Except.map, ← h])
  | cons word words ih =>
    rw [List.foldlM_cons]
    cases word with
    | path text =>
      have hset : ∀ q : Options, q.obey (.path text) = q.setLog text := fun _ => rfl
      rw [List.filter_cons_of_pos rfl, List.foldlM_cons, hset, hset]
      unfold Options.setLog
      rw [h]
      by_cases hrefused : p.log.isSome = true ∨ text = ""
      · simp [hrefused, bind, Except.bind]
      · simp only [hrefused, if_false]
        simpa [bind, Except.bind] using
          ih (o := { o with log := some text }) (p := { p with log := some text }) rfl
    | flag f =>
      have happly : ∀ q : Options, q.obey (.flag f) = q.apply f := fun _ => rfl
      cases f with
      | none => exact .inl rfl
      | some f =>
        cases f with
        | help => exact .inr rfl
        | version => exact .inr rfl
        | verbose =>
          have hcount : o.verbose + 1 + words.count (.flag (some .verbose)) =
              o.verbose + (Word.flag (some .verbose) :: words).count (.flag (some .verbose)) := by
            rw [List.count_cons_self, Nat.add_assoc, Nat.add_comm 1]
          rcases ih (o := { o with verbose := o.verbose + 1 }) h with hrefused | hlast
          · exact .inl hrefused
          · rw [← hcount]
            exact .inr hlast
        | quiet =>
          -- Quiet is refused where it has been asked for before.
          by_cases hquiet : o.quiet = true
          · exact .inl (by simp [happly, Options.apply, hquiet, bind, Except.bind])
          · have hnext : o.obey (.flag (some .quiet)) = .ok { o with quiet := true } := by
              simp [happly, Options.apply, hquiet]
            rw [hnext]
            rcases ih (o := { o with quiet := true }) h with hrefused | hlast
            · exact .inl hrefused
            · refine .inr (hlast.trans ?_)
              simp [Word.isVerbosity]

/-- The levels that words ask to be told: errors, and unless quiet is asked for also warnings and
one level more for each time that more is asked for. -/
def hears (words : List Word) : Level → Bool
  | .error => true
  | .warn => .flag (some .quiet) ∉ words
  | .info => .flag (some .quiet) ∉ words ∧ 1 ≤ words.count (.flag (some .verbose))
  | .debug => .flag (some .quiet) ∉ words ∧ 2 ≤ words.count (.flag (some .verbose))
  | .trace => .flag (some .quiet) ∉ words ∧ 3 ≤ words.count (.flag (some .verbose))

theorem admits_limitOf (words : List Word) (level : Level) :
    (limitOf words).admits level = hears words level := by
  unfold limitOf
  by_cases hquiet : .flag (some .quiet) ∈ words
  · cases level <;> simp [hears, hquiet, Level.admits, Level.rank]
  · rw [if_neg hquiet]
    rcases hmore : words.count (.flag (some .verbose)) with _ | _ | _ | more <;>
      cases level <;> simp [hears, hquiet, hmore, Level.admits, Level.rank]

theorem limit_eq_limitOf (words : List Word) (log : Option String) :
    Options.limit
      { verbose := words.count (.flag (some .verbose))
        quiet := words.contains (.flag (some .quiet)), log } = limitOf words := by
  unfold Options.limit limitOf
  by_cases hquiet : .flag (some .quiet) ∈ words
  · have hcontains := List.contains_iff_mem.mpr hquiet
    exact (if_pos hcontains).trans (if_pos hquiet).symm
  · have hcontains := mt List.contains_iff_mem.mp hquiet
    exact (if_neg hcontains).trans (if_neg hquiet).symm

theorem withLimit_of_obey {o : Options} {word : Word} {request : Request}
    (h : o.obey word = .error request) (limit : Level) : request.withLimit limit = request := by
  cases word with
  | path text =>
    have hset : o.setLog text = .error request := h
    unfold Options.setLog at hset
    split at hset <;> cases hset
    rfl
  | flag f =>
    have happly : o.apply f = .error request := h
    unfold Options.apply at happly
    split at happly
    · cases happly
    · split at happly <;> cases happly
      rfl
    · cases happly
      rfl
    · cases happly
      rfl
    · cases happly
      rfl

theorem withLimit_of_foldlM {words : List Word} {o : Options} {request : Request}
    (h : words.foldlM Options.obey o = .error request) (limit : Level) :
    request.withLimit limit = request := by
  induction words generalizing o with
  | nil => cases h
  | cons word words ih =>
    rw [List.foldlM_cons] at h
    cases hword : o.obey word with
    | error early =>
      rw [hword] at h
      cases h
      exact withLimit_of_obey hword limit
    | ok next =>
      rw [hword] at h
      exact ih h

/-- A command line that is not refused asks for what its substance asks for, up to a limit. -/
theorem request_eq {arguments : List String} (h : request arguments ≠ .refused) :
    request arguments =
      (requested (substance arguments)).withLimit (limitOf (words arguments)) := by
  rw [request_eq_requested] at h ⊢
  unfold requested substance at *
  rcases foldlM_obey (words arguments) (o := {}) (p := {}) rfl with hrefused | hlast
  · rw [hrefused] at h
    exact absurd rfl h
  · rw [hlast]
    cases hplain : ((words arguments).filter (!·.isVerbosity)).foldlM Options.obey {} with
    | error request => exact (withLimit_of_foldlM hplain _).symm
    | ok last =>
      simp only [Except.map]
      cases last.log with
      | none => rfl
      | some log =>
        rw [Nat.zero_add, Bool.false_or]
        exact congrArg (Request.report log) (limit_eq_limitOf (words arguments) (some log))

theorem obey_eq_ok {o next : Options} {word : Word} (h : o.obey word = .ok next) :
    word.isVerbosity = true ∨ ∃ path, path ≠ "" ∧ word = .path path ∧ o.log = none ∧
      next = { o with log := some path } := by
  cases word with
  | path text =>
    have hset : o.setLog text = .ok next := h
    unfold Options.setLog at hset
    split at hset
    · cases hset
    · next hfree =>
      cases hset
      rw [not_or] at hfree
      exact .inr ⟨text, hfree.2, rfl, Option.not_isSome_iff_eq_none.mp hfree.1, rfl⟩
  | flag f =>
    rcases f with _ | f
    · cases h
    · cases f with
      | verbose | quiet => exact .inl rfl
      | help | version => cases h

theorem eq_path_of_foldlM {words : List Word} (hplain : ∀ word ∈ words, word.isVerbosity = false)
    {o last : Options} (h : words.foldlM Options.obey o = .ok last) :
    words = [] ∧ last = o ∨ o.log = none ∧
      ∃ path, path ≠ "" ∧ words = [.path path] ∧ last = { o with log := some path } := by
  induction words generalizing o with
  | nil =>
    cases h
    exact .inl ⟨rfl, rfl⟩
  | cons word words ih =>
    rw [List.forall_mem_cons] at hplain
    rw [List.foldlM_cons] at h
    obtain ⟨next, hnext, h⟩ := bind_eq_ok.mp h
    rcases obey_eq_ok hnext with hverbosity | ⟨path, hne, rfl, hnone, rfl⟩
    · rw [hplain.1] at hverbosity
      cases hverbosity
    -- A second path is refused.
    · rcases ih hplain.2 h with ⟨rfl, rfl⟩ | ⟨hset, -⟩
      · exact .inr ⟨hnone, path, hne, rfl, rfl⟩
      · cases hset

/-- All that a command line for a report says, but for how much is told, is the path of the log. -/
theorem substance_of_report {arguments : List String} {path : String} {limit : Level}
    (h : request arguments = .report path limit) :
    path ≠ "" ∧ substance arguments = [.path path] := by
  have hplain := @request_eq arguments (by simp [h])
  rw [h] at hplain
  unfold requested at hplain
  cases hlast : (substance arguments).foldlM Options.obey {} with
  | error request =>
    rw [hlast, withLimit_of_foldlM hlast] at hplain
    subst hplain
    -- An early decision does not depend on the limit, as a report does.
    have herror : Request.report path .error = .report path limit := withLimit_of_foldlM hlast _
    have hwarn : Request.report path .warn = .report path limit := withLimit_of_foldlM hlast _
    cases herror.trans hwarn.symm
  | ok last =>
    have hwords : ∀ word ∈ substance arguments, word.isVerbosity = false := by
      intro word hword
      simpa using List.of_mem_filter hword
    rw [hlast] at hplain
    rcases eq_path_of_foldlM hwords hlast with ⟨-, rfl⟩ | ⟨-, other, hne, hpath, rfl⟩
    · cases hplain
    · cases hplain
      exact ⟨hne, hpath⟩

/-- A command line that is accepted and asks to be told everything. -/
structure Talkative (arguments : List String) : Prop where
  accepted : request arguments ≠ .refused
  quiet : .flag (some .quiet) ∉ words arguments
  more : 3 ≤ (words arguments).count (.flag (some .verbose))

theorem Talkative.hears {arguments : List String} (h : Talkative arguments) (level : Level) :
    hears (words arguments) level = true := by
  have hmore := h.more
  cases level <;> simp only [CommandLine.hears, h.quiet, not_false_eq_true, true_and,
    decide_eq_true_eq] <;> omega

theorem talkative_report {path : String} (h : path ≠ "") :
    Talkative ["-vvv", "--", path] ∧ substance ["-vvv", "--", path] = [.path path] := by
  have hwords : words ["-vvv", "--", path] =
      [.flag (some .verbose), .flag (some .verbose), .flag (some .verbose), .path path] := by
    simp [words, wordsOf, Flag.ofLetter?]
  refine ⟨{ accepted := ?_, quiet := by simp [hwords], more := by simp [hwords] }, ?_⟩
  · rw [request_eq_requested, hwords]
    simp [requested, Options.obey, Options.apply, Options.setLog, h, bind, Except.bind, pure,
      Except.pure]
  · simp [substance, hwords, Word.isVerbosity]

end CommandLine

theorem Report.notices_proceed (names : BitNames) (closing : List Notice) {p : Progress}
    (h : p.sink.room = none) {sink : Sink} (hsink : sink.room = none)
    (steps : List (List Notice × Except LogError PowerStatus)) :
    (proceed names closing { p with sink } steps).notices =
      (proceed names closing p steps).notices := by
  induction steps generalizing p sink with
  | nil => rfl
  | cons step rest ih =>
    obtain ⟨notices, item⟩ := step
    cases item with
    | error e => rfl
    | ok status =>
      by_cases hmask : p.tracker.current.getD 0 = status.flags
      · rw [proceed_same hmask, proceed_same (p := { p with sink }) hmask]
        exact ih (p := p.seen notices status) h hsink
      · obtain ⟨next, hw, hroom, -⟩ := Sink.write_unlimited h
          (Utf8.encode (changeLine names (p.tracker.current.getD 0) status ++ "\n"))
        obtain ⟨next', hw', hroom', -⟩ := Sink.write_unlimited hsink
          (Utf8.encode (changeLine names (p.tracker.current.getD 0) status ++ "\n"))
        rw [proceed_changed hmask hw, proceed_changed (p := { p with sink }) hmask hw']
        exact ih (p := { p.seen notices status with sink := next, lines := p.lines + 1 })
          hroom hroom'

namespace Program

/-- The output without the number that it starts with. -/
def unclocked (stdout : String) : List Char := stdout.toList.dropWhile Char.isDigit

theorem unclocked_startup (now : Nat) (rest : String) :
    unclocked (startup now ++ rest) = (": Creating connection\n" ++ rest).toList := by
  have hdigits : ∀ c ∈ (toString now).toList, c.isDigit = true := by
    intro c hc
    rw [Nat.toString_eq_repr, Nat.toList_repr] at hc
    exact Nat.isDigit_of_mem_toDigits (by omega) (by omega) hc
  rw [unclocked, startup, String.append_assoc, String.toList_append,
    List.dropWhile_append_of_pos hdigits]
  simp

section Session

variable (path : String) (contents : Except Fault (List UInt8))

theorem exists_stdout_eq :
    ∃ rest, ∀ now, (session path contents now).stdout = startup now ++ rest := by
  cases hvalue : (Reader.ofFile path contents {}).value with
  | error e =>
    refine ⟨"", fun now => ?_⟩
    rw [(session_error hvalue now).1, String.append_empty]
  | ok r => exact ⟨_, fun now => (session_ok hvalue now).1⟩

theorem failure_session (now later : Nat) :
    (session path contents later).failure = (session path contents now).failure := by
  cases hvalue : (Reader.ofFile path contents {}).value with
  | error e => simp only [session, hvalue]
  | ok r =>
    have hresult := fun moment => (Report.changes_unlimited BitNames.powerStatus
      (Feed.run ({ reader := r } : PowerFeed)) (bytes_announce moment).1).2
    simp only [session, hvalue, hresult]

theorem notices_session (now later : Nat) :
    (session path contents later).notices = (session path contents now).notices := by
  cases hvalue : (Reader.ofFile path contents {}).value with
  | error e => simp only [session, hvalue]
  | ok r =>
    have hnotices := Report.notices_proceed BitNames.powerStatus
      (Feed.run ({ reader := r } : PowerFeed)).closing
      (p := { sink := (Report.announce now "Creating connection" {}).1 })
      (bytes_announce now).1 (bytes_announce later).1
      (Feed.run ({ reader := r } : PowerFeed)).steps
    simp only [session, hvalue, Report.changes]
    exact congrArg _ hnotices

end Session

def IsBlock (text : String) : Prop := text = "" ∨ ∃ rest, text = "Error: " ++ rest

theorem isBlock_failureText (causes : List String) : IsBlock (failureText causes) := by
  unfold failureText
  split
  · exact .inl rfl
  · exact .inr ⟨_, String.append_assoc ..⟩
  · exact .inr ⟨_, by simp only [String.append_assoc]; rfl⟩
  · exact .inr ⟨_, by simp only [String.append_assoc]; rfl⟩

/-- What there is to tell about a request. -/
def messages (read : String → Except Fault (List UInt8)) : Request → List Notice
  | .report path _ => (session path (read path) 0).notices
  | _ => []

def failure (read : String → Except Fault (List UInt8)) : Request → String
  | .report path _ => failureText (session path (read path) 0).failure
  | _ => ""

section Run

variable (request : Request) (read : String → Except Fault (List UInt8)) (limit : Level) (now : Nat)

theorem isBlock_failure : IsBlock (failure read request) := by
  cases request with
  | report path limit => exact isBlock_failureText _
  | help | version | refused | nothing => exact .inl rfl

/-- Neither the limit nor the time changes the output, but for a number, and the exit status. -/
theorem run_withLimit (limit' : Level) (later : Nat) :
    let outcome := run (request.withLimit limit) read now
    let other := run (request.withLimit limit') read later
    unclocked outcome.stdout = unclocked other.stdout ∧ outcome.exit = other.exit := by
  cases request with
  | report path _ =>
    obtain ⟨rest, hstdout⟩ := exists_stdout_eq path (read path)
    have hclocked := fun moment => congrArg unclocked (hstdout moment)
    simp only [unclocked_startup] at hclocked
    simp only [Request.withLimit, run, Session.outcome, session_under _ _ _ limit,
      session_under _ _ _ limit', hclocked, failure_session path (read path) now later, true_and]
  | help | version | refused | nothing => simp [Request.withLimit, run]

/-- The messages that are important enough are told, and then the failure. -/
theorem stderr_withLimit : (run (request.withLimit limit) read now).stderr =
    String.join ((Notice.upTo limit (messages read request)).map noticeLine) ++
      failure read request := by
  cases request with
  | report path _ =>
    simp only [Request.withLimit, run, Session.outcome, session_under _ _ _ limit, messages,
      failure, notices_session path (read path) 0 now, failure_session path (read path) 0 now]
  | help | version | refused | nothing => rfl

end Run

/-- What is told to a command line of the messages that there are. -/
def told (arguments : List String) (all : List Notice) : String :=
  let words := CommandLine.words arguments
  String.join ((all.filter fun message => CommandLine.hears words message.level).map noticeLine)

theorem told_talkative {arguments : List String} (h : CommandLine.Talkative arguments)
    (all : List Notice) : told arguments all = String.join (all.map noticeLine) := by
  simp only [told, h.hears, List.filter_true]

/-- Command lines that differ only in how much they ask to be told come to the same output, but for
the number of the time, and to the same exit status. On the error output each gets those of the same
messages that are important enough for it, in order and before the same block on a failure. One that
asks for everything gets all of them, and there is one unless there are no messages. -/
theorem run_verbosity {first second : List String}
    (hsame : CommandLine.substance second = CommandLine.substance first)
    (hfirst : CommandLine.request first ≠ .refused)
    (hsecond : CommandLine.request second ≠ .refused)
    (read : String → Except Fault (List UInt8)) (now later : Nat) :
    let outcome := run (CommandLine.request first) read now
    let other := run (CommandLine.request second) read later
    unclocked outcome.stdout = unclocked other.stdout ∧ outcome.exit = other.exit ∧
      ∃ all block, IsBlock block ∧ outcome.stderr = told first all ++ block ∧
        other.stderr = told second all ++ block ∧
        (∀ full, CommandLine.substance full = CommandLine.substance first →
          CommandLine.Talkative full → ∀ moment,
            (run (CommandLine.request full) read moment).stderr =
              String.join (all.map noticeLine) ++ block) ∧
        (all = [] ∨ ∃ full, CommandLine.substance full = CommandLine.substance first ∧
          CommandLine.Talkative full) := by
  intro outcome other
  set asked := CommandLine.requested (CommandLine.substance first) with hasked
  have hstderr : ∀ arguments, CommandLine.substance arguments = CommandLine.substance first →
      CommandLine.request arguments ≠ .refused → ∀ moment,
        (run (CommandLine.request arguments) read moment).stderr =
          told arguments (messages read asked) ++ failure read asked := by
    intro arguments hrest haccepted moment
    rw [CommandLine.request_eq haccepted, hrest, stderr_withLimit]
    simp only [told, Notice.upTo, CommandLine.admits_limitOf, ← hasked]
  have hrun : unclocked outcome.stdout = unclocked other.stdout ∧ outcome.exit = other.exit := by
    simp only [outcome, other, CommandLine.request_eq hfirst, CommandLine.request_eq hsecond, hsame]
    exact run_withLimit asked read _ now _ later
  refine ⟨hrun.1, hrun.2, messages read asked, failure read asked, isBlock_failure asked read,
    hstderr first rfl hfirst now, hstderr second hsame hsecond later, ?_, ?_⟩
  · intro full hrest hfull moment
    rw [hstderr full hrest hfull.accepted moment, told_talkative hfull]
  · have hrequest := CommandLine.request_eq hfirst
    rw [← hasked] at hrequest
    cases hreport : asked with
    | report path limit =>
      rw [hreport] at hrequest
      obtain ⟨hne, hsubstance⟩ := CommandLine.substance_of_report hrequest
      obtain ⟨hfull, hrest⟩ := CommandLine.talkative_report hne
      exact .inr ⟨_, hrest.trans hsubstance.symm, hfull⟩
    | help | version | refused | nothing => exact .inl rfl

/-- A log with a definition, a line that nothing defines, and a definition that is too short. -/
def halted : List UInt8 := Utf8.encode "FMT,1,4,A,B,c\nX,1\nFMT\n"

theorem session_halted :
    let s := session "a.log" (.ok halted) 0
    s.notices.map (fun n => (n.level, noticeLine n)) =
      [(.info, "[INFO powr_change] POWR Change CLI v0.1.0\n"),
        (.info, "[INFO powr_change] Using decoder library v0.1.0\n"),
        (.info, "[INFO flight_log_decoder::reader] Opening log file: \"a.log\"\n"),
        (.debug, "[DEBUG flight_log_decoder::reader] Detected Text log (22 bytes)\n"),
        (.trace, "[TRACE flight_log_decoder::formats::text] Learned format A from line 1\n"),
        (.warn,
          "[WARN flight_log_decoder::formats::text] Skipping X lines: no FMT definition\n")] ∧
      failureText s.failure =
        "Error: Failed to open log file: \"a.log\"\n\nCaused by:\n" ++
        "    Failed to parse log file: Line 3: FMT needs at least 5 fields, got 0\n" := by
  decide +kernel

theorem run_verbosity_halted :
    let files := ({} : Files).add "a.log" (.file halted)
    let brief := ["-qv", "a.log"]
    let more := ["a.log", "--verbose"]
    let full := ["-v", "--verbose", "-v", "--", "a.log"]
    let outcome := run (CommandLine.request brief) files.read 1700000000
    let other := run (CommandLine.request more) files.read 1700000060
    let last := run (CommandLine.request full) files.read 1700000120
    let failure :=
      "Error: Failed to open log file: \"a.log\"\n\nCaused by:\n" ++
      "    Failed to parse log file: Line 3: FMT needs at least 5 fields, got 0\n"
    unclocked outcome.stdout = unclocked other.stdout ∧ outcome.exit = other.exit ∧
      (∃ (all : List Notice) (block : String), IsBlock block ∧
        outcome.stderr = told brief all ++ block ∧ other.stderr = told more all ++ block ∧
        last.stderr = String.join (all.map noticeLine) ++ block) ∧
      outcome.stderr = failure ∧
      other.stderr =
        "[INFO powr_change] POWR Change CLI v0.1.0\n" ++
        "[INFO powr_change] Using decoder library v0.1.0\n" ++
        "[INFO flight_log_decoder::reader] Opening log file: \"a.log\"\n" ++
        "[WARN flight_log_decoder::formats::text] Skipping X lines: no FMT definition\n" ++
        failure ∧
      last.stderr =
        "[INFO powr_change] POWR Change CLI v0.1.0\n" ++
        "[INFO powr_change] Using decoder library v0.1.0\n" ++
        "[INFO flight_log_decoder::reader] Opening log file: \"a.log\"\n" ++
        "[DEBUG flight_log_decoder::reader] Detected Text log (22 bytes)\n" ++
        "[TRACE flight_log_decoder::formats::text] Learned format A from line 1\n" ++
        "[WARN flight_log_decoder::formats::text] Skipping X lines: no FMT definition\n" ++
        failure := by
  intro files brief more full outcome other last failure
  have hmore : CommandLine.substance more = CommandLine.substance brief := by decide +kernel
  have hfull : CommandLine.substance full = CommandLine.substance brief := by decide +kernel
  have htalkative : CommandLine.Talkative full := {
    accepted := by decide +kernel
    quiet := by decide +kernel
    more := by decide +kernel }
  obtain ⟨hstdout, hexit, all, block, hblock, hbrief, hother, hall, -⟩ :=
    run_verbosity hmore (by decide +kernel) (by decide +kernel) files.read 1700000000 1700000060
  have hread : files.read "a.log" = .ok halted := by decide +kernel
  obtain ⟨hlines, hfailure⟩ := session_halted
  -- Each text is made of the lines that its limit admits.
  have hstderr (limit : Level) (now : Nat) : (run (.report "a.log" limit) files.read now).stderr =
      String.join ((((session "a.log" (.ok halted) 0).notices.map fun n =>
        (n.level, noticeLine n)).filter fun line => limit.admits line.1).map (·.2)) ++ failure := by
    rw [List.filter_map, List.map_map]
    have htext := stderr_withLimit (.report "a.log" .trace) files.read limit now
    rwa [messages, Program.failure, hread, hfailure] at htext
  have hquiet : CommandLine.request brief = .report "a.log" .error := by decide +kernel
  have hverbose : CommandLine.request more = .report "a.log" .info := by decide +kernel
  have hdetailed : CommandLine.request full = .report "a.log" .trace := by decide +kernel
  refine ⟨hstdout, hexit, ⟨all, block, hblock, hbrief, hother, ?_⟩, ?_, ?_, ?_⟩
  · exact hall full hfull htalkative 1700000120
  · simp only [outcome, hquiet, hstderr, hlines]
    simp [Level.admits, Level.rank, String.join, -String.reduceAppend]
  · simp only [other, hverbose, hstderr, hlines]
    simp [Level.admits, Level.rank, String.join, -String.reduceAppend]
  · simp only [last, hdetailed, hstderr, hlines]
    simp [Level.admits, Level.rank, String.join, -String.reduceAppend]

end Program

end DataFlash
