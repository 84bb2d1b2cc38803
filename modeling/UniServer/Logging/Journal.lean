/-
  Logging/Journal.lean --- what the log statements of a program leave behind.

  A statement looks at the level, then for a logger, and then its record goes to the
  sinks of a copy of that logger.  Operations of `LogSystem` and reloads may come
  between the first two: what the statement finds is in force at two different
  times.  The program logs from one thread of one process.

  A file holds the lines of the sinks that were opened on its path, in the order of
  the calls.  What a stream holds back is counted as written, so no two streams may
  be open on the file at a time (`JsonFile`); different paths are different files.
-/
import UniServer.Logging.ConsoleLines
import UniServer.Logging.Disabled
import UniServer.Logging.JsonRecords
import UniServer.Logging.Stream

set_option autoImplicit false

namespace UniServer.Logging

open UniServer.Foundation UniServer.Common UniServer.Http

variable (env : Environment)

/-! ## The logger in force -/

/-- The logger that is shown is held. -/
theorem LogSystem.held_of_get {s : LogSystem} {logger : Logger}
    (h : s.get = some logger) :
    ∃ m, s.lm = some m ∧ m.logger = some logger := by
  obtain ⟨m, hm, hget⟩ := Option.bind_eq_some_iff.mp h
  refine ⟨m, hm, ?_⟩
  unfold LogManager.get at hget
  split at hget
  · cases hget
  · exact hget

namespace Session

/-- The logger that is held is that of the last document that has configured one. -/
def Configured (t : Session) : Prop :=
  ∀ m, t.system.lm = some m → ∀ logger, m.logger = some logger →
    Register.lastWrite (LogManager.configures env) t.loaded = some logger

variable {env}

/-- A manager whose logger is the old one, or none. -/
theorem Configured.of_logger {t t' : Session} (h : Configured env t)
    (hloaded : t'.loaded = t.loaded)
    (hlm : ∀ m', t'.system.lm = some m' →
      ∃ m, t.system.lm = some m ∧ m'.logger = m.logger) : Configured env t' := by
  intro m' hm' logger hlogger
  obtain ⟨m, hm, hsame⟩ := hlm m' hm'
  rw [hloaded]
  exact h m hm logger (hsame ▸ hlogger)

theorem configured_step (t : Session) (e : Event) (t' : Session)
    (h : Configured env t) (hstep : step env t e = .ok t') : Configured env t' := by
  cases e with
  | call c =>
    cases hstep
    split
    · exact h
    · exact h
  | proceed =>
    rw [step] at hstep
    split at hstep
    · cases hstep
      exact h
    · rename_i action rest htodo
      split at hstep
      · cases hstep
      · rename_i hperform
        cases hstep
        -- a document that is not loaded does not configure anything
        rcases action.documents_eq_nil_or with hnone | ⟨doc, rfl⟩
        · rw [hnone, List.append_nil]
          exact h
        · obtain ⟨e, hloads⟩ := LogSystem.loads_of_perform_eq_none env hperform
          have hnot : LogManager.configures env doc = none :=
            LogSystem.configures_eq_none
              (by rw [hloads]; exact fun h => (by cases h))
          intro m hm logger hlogger
          show Register.lastWrite _ (t.loaded ++ [doc]) = _
          rw [Register.lastWrite_snoc, hnot]
          exact h m hm logger hlogger
      · rename_i s hperform
        cases hstep
        rcases LogSystem.lm_of_perform env hperform with
          ⟨doc, b, rfl, _, hlm⟩ | ⟨rfl, hlm⟩ | ⟨rfl, hlm⟩ | ⟨_, hnone, hlm⟩
        · intro m hm logger hlogger
          show Register.lastWrite _ (t.loaded ++ [doc]) = _
          cases hlm.symm.trans hm
          change LogManager.configures env doc = some logger at hlogger
          rw [Register.lastWrite_snoc, hlogger]
          rfl
        · refine h.of_logger (List.append_nil _) fun m' hm' => ?_
          obtain ⟨m, hm, rfl⟩ := Option.map_eq_some_iff.mp (hlm.symm.trans hm')
          exact ⟨m, hm, rfl⟩
        · refine h.of_logger (List.append_nil _) fun m' hm' => ?_
          obtain ⟨m, hm, rfl⟩ := Option.map_eq_some_iff.mp (hlm.symm.trans hm')
          refine ⟨m, hm, ?_⟩
          split
          · rfl
          · rfl
        · rw [hnone, List.append_nil]
          exact h.of_logger rfl fun m' hm' => ⟨m', hlm.symm.trans hm', rfl⟩
  | reload doc =>
    rw [step] at hstep
    cases hstep
    split
    · intro m' hm' logger hlogger
      obtain ⟨m, hm, rfl⟩ := Option.map_eq_some_iff.mp hm'
      rw [LogManager.reload_eq] at hlogger
      show Register.lastWrite _ (t.loaded ++ [doc]) = _
      rw [Register.lastWrite_snoc]
      cases hconfigures : LogManager.configures env doc with
      | some new =>
        rw [hconfigures] at hlogger
        exact hlogger
      | none =>
        rw [hconfigures] at hlogger
        exact h m hm logger hlogger
    · exact h
  | workerEnds =>
    cases hstep
    exact h.of_logger rfl fun m' hm' => ⟨m', hm', rfl⟩

theorem configured_blank : Configured env blank := fun _ hm => (by cases hm)

theorem configured_of_run {events : List Event} {t : Session}
    (hrun : run env events = .ok t) : Configured env t :=
  Machine.run_invariant (Configured env) configured_step configured_blank hrun

/-- In every run, with reloads between any two actions: the logger that is in force
is the one that the last document that configures any has described, and so is the
level that is in force, if any is. -/
theorem run_configured {events : List Event} {t : Session}
    (hrun : run env events = .ok t) :
    (∀ logger, t.system.get = some logger →
      Register.lastWrite (LogManager.configures env) t.loaded = some logger) ∧
    (t.system.getLevel ≠ .unknown →
      (Register.lastWrite (LogManager.configures env) t.loaded).map Logger.level =
        some t.system.getLevel) := by
  have h := configured_of_run hrun
  constructor
  · intro logger hget
    obtain ⟨m, hm, hlogger⟩ := LogSystem.held_of_get hget
    exact h m hm logger hlogger
  · intro hknown
    unfold LogSystem.getLevel at hknown ⊢
    cases hlm : t.system.lm with
    | none =>
      rw [hlm] at hknown
      exact absurd rfl hknown
    | some m =>
      rw [hlm] at hknown
      cases hlogger : m.logger with
      | none =>
        simp only [LogManager.getLevel, hlogger] at hknown
        exact absurd rfl hknown
      | some logger =>
        rw [h m hlm logger hlogger]
        simp only [LogManager.getLevel, hlogger, Option.map_some]

/-- A configuration with this level and no sinks. -/
def levelKeys (level : String) : List (Bytes × Yaml) :=
  [(ascii "level", text level), (ascii "sinks", .sequence [])]

/-- `Start` is called again with another file; that file is changed as soon as its
manager is there. -/
def reconfiguredEvents : List Event :=
  startedEvents ++
    [ .call (.startAt (ascii "log.yml") (documentOf (levelKeys "debug")) .ready),
      .proceed, .reload (documentOf (levelKeys "error")), .proceed, .proceed ]

/-- The last of the three configurations is in force. -/
theorem run_configured_reconfigured :
    ∃ t, run plainEnvironment reconfiguredEvents = .ok t ∧
      t.loaded = [documentOf enabledKeys, documentOf (levelKeys "debug"),
        documentOf (levelKeys "error")] ∧
      t.system.getLevel = .error ∧
      Register.lastWrite (LogManager.configures plainEnvironment) t.loaded =
        some { level := .error, sinks := [] } := by
  obtain ⟨t, hrun, hloaded, hget, hlevel⟩ : ∃ t,
      run plainEnvironment reconfiguredEvents = .ok t ∧
      t.loaded = [documentOf enabledKeys, documentOf (levelKeys "debug"),
        documentOf (levelKeys "error")] ∧
      t.system.get = some { level := .error, sinks := [] } ∧
      t.system.getLevel = .error := ⟨_, rfl, rfl, rfl, rfl⟩
  exact ⟨t, hrun, hloaded, hlevel, (run_configured hrun).1 _ hget⟩

end Session

/-- `dump()` writes a document on one line. -/
def SingleLine (json : Nlohmann) : Prop :=
  ∀ d : Json, d.dumpable = true → d.floatFree = true → newline ∉ json.text (-1) d

/-! ## Runs -/

/-- The session, the statement whose `ShouldLog` has returned true and that has not
looked for a logger yet, and the calls of sinks, oldest first. -/
structure Journal where
  session : Session
  pending : Option LogStatement
  calls : List SinkCall

inductive JournalEvent where
  /-- an event of the logging system -/
  | session (e : Event)
  /-- a statement calls `ShouldLog` -/
  | check (statement : LogStatement)
  /-- the statement calls `LogSystem::Get`, and its stream lives and dies -/
  | write (outcome : Sink → StreamOutcome) (loc : SourceLocation)

namespace Journal

/-- The program has just started. -/
def blank : Journal where
  session := .blank
  pending := none
  calls := []

variable (json : Nlohmann) (format : Bytes → List FmtArg → Except Bytes Bytes)

/-- One event.  A statement is checked when the one before it is done with. -/
def step (t : Journal) : JournalEvent → Run Journal
  | .session e => do return { t with session := ← t.session.step env e }
  | .check statement =>
      .ok (if t.pending.isNone &&
          shouldLog t.session.system.getLevel statement.subject.toLog then
        { t with pending := some statement }
      else t)
  | .write outcome loc =>
      match t.pending, t.session.system.get with
      | none, _ => .ok t
      | some _, none => .ok { t with pending := none }
      | some statement, some logger => do
          let stream := LogStream.ofStatement logger statement
          match ← stream.destroy json format outcome loc with
          | .logged calls =>
              return { t with pending := none, calls := t.calls ++ calls }
          | .reported _ => return { t with pending := none }

/-- The journal after these events. -/
def run (events : List JournalEvent) : Run Journal :=
  Machine.run (step env json format) blank events

/-! ## What every call of a sink goes back to -/

/-- One of these documents sets a level that lets the record pass. -/
def Passed (docs : List Document) (level : Log) : Prop :=
  ∃ doc ∈ docs, ∃ logger, LogManager.configures env doc = some logger ∧
    logger.level ≠ .unknown ∧ logger.level.value ≤ level.value

/-- One of these documents names the sink. -/
def Named (docs : List Document) (sink : Sink) : Prop :=
  ∃ doc ∈ docs, ∃ logger, LogManager.configures env doc = some logger ∧
    sink ∈ logger.sinks

/-- What is known of a journal. -/
structure Accounted (t : Journal) : Prop where
  configured : Session.Configured env t.session
  /-- a statement that waits has passed -/
  pending : ∀ statement, t.pending = some statement →
    Passed env t.session.loaded statement.subject.toLog
  /-- a sink that was called was named, and has written its line of a record that
  has passed -/
  calls : ∀ c ∈ t.calls, Passed env t.session.loaded c.record.status ∧
    Named env t.session.loaded c.sink ∧ c.sink.line json c.record = .ok c.text

variable {env}

theorem Passed.mono {docs docs' : List Document} {level : Log}
    (h : Passed env docs level) (hsub : docs ⊆ docs') : Passed env docs' level := by
  obtain ⟨doc, hdoc, hpassed⟩ := h
  exact ⟨doc, hsub hdoc, hpassed⟩

theorem Named.mono {docs docs' : List Document} {sink : Sink}
    (h : Named env docs sink) (hsub : docs ⊆ docs') : Named env docs' sink := by
  obtain ⟨doc, hdoc, hnamed⟩ := h
  exact ⟨doc, hsub hdoc, hnamed⟩

/-- A session forgets no document. -/
theorem loaded_step {t t' : Session} {e : Event} (h : t.step env e = .ok t') :
    t.loaded ⊆ t'.loaded := by
  cases e with
  | call c =>
    cases h
    split <;> exact List.Subset.refl _
  | proceed =>
    rw [Session.step] at h
    split at h
    · cases h
      exact List.Subset.refl _
    · split at h
      · cases h
      · cases h
        exact List.subset_append_left _ _
      · cases h
        exact List.subset_append_left _ _
  | reload doc =>
    rw [Session.step] at h
    cases h
    split
    · exact List.subset_append_left _ _
    · exact List.Subset.refl _
  | workerEnds =>
    cases h
    exact List.Subset.refl _

/-- The logger that is held was configured by a document that was loaded. -/
theorem configured_by {t : Session} (h : Session.Configured env t)
    {m : LogManager} (hm : t.system.lm = some m) {logger : Logger}
    (hlogger : m.logger = some logger) :
    ∃ doc ∈ t.loaded, LogManager.configures env doc = some logger := by
  have hmem := List.mem_of_getLast? (h m hm logger hlogger)
  obtain ⟨doc, hdoc, hconfigures⟩ := List.mem_filterMap.mp hmem
  exact ⟨doc, hdoc, hconfigures⟩

theorem passed_of_shouldLog {t : Session} (h : Session.Configured env t)
    {level : Log} (hshould : shouldLog t.system.getLevel level = true) :
    Passed env t.loaded level := by
  simp only [shouldLog, Bool.not_eq_true', Bool.or_eq_false_iff,
    decide_eq_false_iff_not] at hshould
  obtain ⟨hset, hlevel⟩ := hshould
  unfold LogSystem.getLevel at hset hlevel
  cases hlm : t.system.lm with
  | none =>
    rw [hlm] at hset
    exact absurd rfl hset
  | some m =>
    rw [hlm] at hset hlevel
    cases hlogger : m.logger with
    | none =>
      simp only [LogManager.getLevel, hlogger] at hset
      exact absurd rfl hset
    | some logger =>
      simp only [LogManager.getLevel, hlogger] at hset hlevel
      obtain ⟨doc, hdoc, hconfigures⟩ := configured_by h hlm hlogger
      refine ⟨doc, hdoc, logger, hconfigures, fun hunknown => ?_,
        Int.not_lt.mp hlevel⟩
      rw [hunknown] at hset
      exact hset rfl

theorem accounted_blank : Accounted env json blank where
  configured := Session.configured_blank
  pending _ h := by cases h
  calls _ h := by cases h

theorem accounted_step (t : Journal) (e : JournalEvent) (t' : Journal)
    (h : Accounted env json t) (hstep : step env json format t e = .ok t') :
    Accounted env json t' := by
  cases e with
  | session e =>
    obtain ⟨session, hsession, hok⟩ := Run.bind_eq_ok.mp hstep
    cases hok
    have hsub := loaded_step hsession
    exact
      { configured := Session.configured_step _ e _ h.configured hsession
        pending :=
          fun statement hpending => (h.pending statement hpending).mono hsub
        calls := fun c hc =>
          ⟨(h.calls c hc).1.mono hsub, (h.calls c hc).2.1.mono hsub,
            (h.calls c hc).2.2⟩ }
  | check statement =>
    cases hstep
    split
    · rename_i hshould
      refine { h with pending := fun statement' hpending => ?_ }
      cases hpending
      exact passed_of_shouldLog h.configured (Bool.and_eq_true_iff.mp hshould).2
    · exact h
  | write outcome loc =>
    -- a statement that is done with leaves nothing that waits
    have hdone : Accounted env json { t with pending := none } :=
      { h with pending := fun _ hpending => (by cases hpending) }
    rw [step] at hstep
    split at hstep
    · cases hstep
      exact h
    · cases hstep
      exact hdone
    · rename_i statement logger hpending hget
      obtain ⟨destroyed, hdestroy, hok⟩ := Run.bind_eq_ok.mp hstep
      rw [LogStream.destroy, LogStream.completed_eq] at hdestroy
      split at hdestroy
      · rename_i info hrecord
        obtain ⟨calls, hcalls, hlogged⟩ := Run.bind_eq_ok.mp hdestroy
        cases hlogged
        cases hok
        have hstatus : info.status = statement.subject.toLog :=
          congrArg LogInfo.status (LogStatement.record_eq_ok hrecord)
        obtain ⟨hsinks, hlines⟩ := loggerCalls_eq json hcalls
        rw [LogStream.ofStatement_logger] at hsinks
        refine { hdone with calls := fun c hc => ?_ }
        rcases List.mem_append.mp hc with hc | hc
        · exact h.calls c hc
        · obtain ⟨rfl, hline⟩ := hlines c hc
          refine ⟨hstatus ▸ h.pending statement hpending, ?_, hline⟩
          obtain ⟨m, hm, hlogger⟩ := LogSystem.held_of_get hget
          obtain ⟨doc, hdoc, hconfigures⟩ := configured_by h.configured hm hlogger
          refine ⟨doc, hdoc, logger, hconfigures, ?_⟩
          rw [← hsinks]
          exact List.mem_map_of_mem hc
      · cases hdestroy
        cases hok
        exact hdone

/-- What waits and what was logged comes from statements of the program. -/
structure Stated (events : List JournalEvent) (t : Journal) : Prop where
  pending : ∀ statement, t.pending = some statement → .check statement ∈ events
  calls : ∀ c ∈ t.calls, ∃ statement, .check statement ∈ events ∧
    statement.record format = .ok c.record

theorem Stated.mono {events : List JournalEvent} {t : Journal}
    (h : Stated format events t) (e : JournalEvent) :
    Stated format (events ++ [e]) t where
  pending statement hpending :=
    List.mem_append_left _ (h.pending statement hpending)
  calls c hc := by
    obtain ⟨statement, hmem, hrecord⟩ := h.calls c hc
    exact ⟨statement, List.mem_append_left _ hmem, hrecord⟩

theorem stated_step {events : List JournalEvent} {t : Journal} {e : JournalEvent}
    {t' : Journal} (h : Stated format events t)
    (hstep : step env json format t e = .ok t') :
    Stated format (events ++ [e]) t' := by
  have hmono := h.mono format e
  cases e with
  | session e =>
    obtain ⟨session, _, hok⟩ := Run.bind_eq_ok.mp hstep
    cases hok
    exact ⟨hmono.pending, hmono.calls⟩
  | check statement =>
    cases hstep
    split
    · refine { hmono with pending := fun statement' hpending => ?_ }
      cases hpending
      exact List.mem_append_right _ (List.mem_singleton_self _)
    · exact hmono
  | write outcome loc =>
    have hdone : Stated format (events ++ [.write outcome loc])
        { t with pending := none } :=
      { hmono with pending := fun _ hpending => (by cases hpending) }
    rw [step] at hstep
    split at hstep
    · cases hstep
      exact hmono
    · cases hstep
      exact hdone
    · rename_i statement logger hpending _
      obtain ⟨destroyed, hdestroy, hok⟩ := Run.bind_eq_ok.mp hstep
      rw [LogStream.destroy, LogStream.completed_eq] at hdestroy
      split at hdestroy
      · rename_i info hrecord
        obtain ⟨calls, hcalls, hlogged⟩ := Run.bind_eq_ok.mp hdestroy
        cases hlogged
        cases hok
        refine { hdone with calls := fun c hc => ?_ }
        rcases List.mem_append.mp hc with hc | hc
        · exact hmono.calls c hc
        · refine ⟨statement, hmono.pending statement hpending, ?_⟩
          rw [((loggerCalls_eq json hcalls).2 c hc).1]
          exact hrecord
      · cases hdestroy
        cases hok
        exact hdone

theorem accounted_of_run {events : List JournalEvent} {t : Journal}
    (hrun : run env json format events = .ok t) :
    Accounted env json t ∧ Stated format events t := by
  refine ⟨Machine.run_invariant (Accounted env json)
    (fun t e t' => accounted_step json format t e t') (accounted_blank json)
      hrun, ?_⟩
  have hstart : Stated format [] blank :=
    { pending := fun _ h => (by cases h), calls := fun _ h => (by cases h) }
  have heach : Machine.Each (step env json format) (fun _ _ => True) blank events :=
    fun _ _ _ _ _ _ => trivial
  exact Machine.history_invariant (Stated format) hstart
    (fun _ _ _ _ h _ hstep => stated_step json format h hstep) heach hrun

/-- However operations and reloads come between the statements of a program: a sink
writes a line only for the record of a statement, one of the configurations that
were loaded lets the level of that record pass, one of them names the sink, and the
line is the record in the format of the sink. -/
theorem run_calls {events : List JournalEvent} {t : Journal}
    (hrun : run env json format events = .ok t) (c : SinkCall) (hc : c ∈ t.calls) :
    (∃ statement, .check statement ∈ events ∧
        statement.record format = .ok c.record) ∧
      Passed env t.session.loaded c.record.status ∧
      Named env t.session.loaded c.sink ∧
      c.sink.line json c.record = .ok c.text := by
  obtain ⟨haccounted, hstated⟩ := accounted_of_run json format hrun
  exact ⟨hstated.calls c hc, haccounted.calls c hc⟩

/-! ## Which runs come to their end -/

/-- The event of the logging system, if it is one. -/
def sessionEvent : JournalEvent → Option Event
  | .session e => some e
  | _ => none

/-- When a statement that waits is given to a logger, what it records is UTF-8 or
goes to no sink for JSON. -/
def Writable (t : Journal) : JournalEvent → Prop
  | .write _ _ => ∀ statement, t.pending = some statement →
      ∀ logger, t.session.system.get = some logger →
        ∀ info, statement.record format = .ok info →
          ∀ sink ∈ logger.sinks, sink.format = .json → info.Utf8
  | _ => True

/-- The session of a journal is a run of its own. -/
theorem session_run {events : List JournalEvent} {t : Journal}
    (hrun : run env json format events = .ok t) :
    Session.run env (events.filterMap sessionEvent) = .ok t.session := by
  refine Machine.run_filterMap Journal.session sessionEvent (fun _ => True)
    (fun _ _ _ _ _ => trivial) ?_ trivial hrun
  intro s e s' _ hstep
  cases e with
  | session e =>
    obtain ⟨session, hsession, hok⟩ := Run.bind_eq_ok.mp hstep
    cases hok
    exact (Machine.run_cons hsession []).trans rfl
  | check statement =>
    cases hstep
    show Except.ok s.session = _
    split <;> rfl
  | write outcome loc =>
    show Except.ok s.session = _
    rw [step] at hstep
    split at hstep
    · cases hstep
      rfl
    · cases hstep
      rfl
    · obtain ⟨destroyed, _, hok⟩ := Run.bind_eq_ok.mp hstep
      split at hok <;> cases hok <;> rfl

/-- What a logger does with a record ends the process unless it is UTF-8 or every
sink formats it otherwise. -/
theorem destroy_isOk_iff (outcome : Sink → StreamOutcome) (loc : SourceLocation)
    (logger : Logger) (statement : LogStatement) :
    (∃ destroyed, (LogStream.ofStatement logger statement).destroy json format
        outcome loc = .ok destroyed) ↔
      ∀ info, statement.record format = .ok info →
        ∀ sink ∈ logger.sinks, sink.format = .json → info.Utf8 := by
  rw [LogStream.destroy, LogStream.completed_eq]
  cases statement.record format with
  | error what => simp
  | ok info =>
    have hlogger := LogStream.ofStatement_logger logger statement
    have hreturns := (loggerCalls_isOk json outcome logger info).trans
      (loggerLog_returns_iff json outcome logger info)
    simp only [hlogger, Except.ok.injEq, forall_eq', ← hreturns, Run.bind_eq_ok]
    constructor
    · rintro ⟨_, calls, hcalls, _⟩
      exact ⟨calls, hcalls⟩
    · rintro ⟨calls, hcalls⟩
      exact ⟨_, calls, hcalls, rfl⟩

theorem write_isOk_iff (t : Journal) (outcome : Sink → StreamOutcome)
    (loc : SourceLocation) :
    (∃ t', step env json format t (.write outcome loc) = .ok t') ↔
      t.Writable format (.write outcome loc) := by
  rw [step, Writable]
  cases t.pending with
  | none => simp
  | some statement =>
    cases t.session.system.get with
    | none => simp
    | some logger =>
      simp only [Option.some.injEq, forall_eq', Run.bind_eq_ok,
        ← destroy_isOk_iff json format outcome loc logger statement]
      constructor
      · rintro ⟨_, destroyed, hdestroy, _⟩
        exact ⟨destroyed, hdestroy⟩
      · rintro ⟨destroyed, hdestroy⟩
        cases destroyed with
        | logged calls => exact ⟨_, _, hdestroy, rfl⟩
        | reported outcome => exact ⟨_, _, hdestroy, rfl⟩

/-- Where the logging system itself does not end the process, the statements do so
exactly when one of them records what a sink for JSON cannot write. -/
theorem run_isOk_iff {events : List JournalEvent} {s : Session}
    (hsession : Session.run env (events.filterMap sessionEvent) = .ok s) :
    (∃ t, run env json format events = .ok t) ↔
      Machine.Each (step env json format) (Writable format) blank events := by
  rw [run, Machine.run_isOk_iff_each]
  apply Machine.each_congr
  intro before e after t hsplit hrun
  cases e with
  | session e =>
    refine iff_of_true ?_ trivial
    have hbefore := session_run json format hrun
    rw [hsplit, List.filterMap_append, Session.run,
      Machine.run_append (Session.step env) hbefore] at hsession
    obtain ⟨session, hstep, _⟩ :=
      (Machine.run_cons_eq_ok (Session.step env)).mp hsession
    exact ⟨{ t with session := session }, by rw [step, hstep]; rfl⟩
  | check statement => exact iff_of_true ⟨_, rfl⟩ trivial
  | write outcome loc => exact write_isOk_iff json format t outcome loc

/-- Statements whose texts are UTF-8 can be written, whatever is configured. -/
theorem each_writable {events : List JournalEvent}
    (h : ∀ statement, .check statement ∈ events → statement.linfo.Utf8) :
    Machine.Each (step env json format) (Writable format) blank events := by
  intro before e after t hsplit hrun
  cases e with
  | session e => trivial
  | check statement => trivial
  | write outcome loc =>
    intro statement hpending logger _ info hrecord _ _ _
    have hstated := (accounted_of_run json format hrun).2
    have hmem : .check statement ∈ events := by
      rw [hsplit]
      exact List.mem_append_left _ (hstated.pending statement hpending)
    -- only the message, which is not in the document, is formatted
    obtain ⟨htime, hfile, hdetails⟩ := h statement hmem
    rw [← LogStatement.record_eq_ok hrecord] at htime hfile hdetails
    exact ⟨htime, hfile, hdetails⟩

/-! ## Files -/

/-- The calls whose texts are in the file of a path. -/
def inFile (path : Bytes) (c : SinkCall) : Bool :=
  c.sink.isFile path && c.taken

/-- What was appended to the file of a path. -/
def content (t : Journal) (path : Bytes) : Bytes :=
  (t.calls.filter (inFile path)).flatMap SinkCall.text

/-- The records that went into it, in order. -/
def records (t : Journal) (path : Bytes) : List LogInfo :=
  (t.calls.filter (inFile path)).map SinkCall.record

variable (env) in
/-- Of the configurations that were loaded each opens this file for JSON only and
once at most, and leaves no file to be named by the clock, as that of the empty path
is; and no stream of this file has failed. -/
structure JsonFile (t : Journal) (path : Bytes) : Prop where
  json : ∀ doc ∈ t.session.loaded, ∀ logger,
    LogManager.configures env doc = some logger →
      ∀ format, Sink.file path format ∈ logger.sinks → format = .json
  once : ∀ doc ∈ t.session.loaded, ∀ logger,
    LogManager.configures env doc = some logger →
      logger.sinks.countP (Sink.isFile path) ≤ 1
  named : path ≠ [] ∧ ∀ doc ∈ t.session.loaded, ∀ logger,
    LogManager.configures env doc = some logger →
      ∀ sink ∈ logger.sinks, sink.isFile [] = false
  taken : ∀ c ∈ t.calls, c.sink.isFile path = true → c.taken = true

variable {json format}

/-- The line of a call that is in a file of JSON records. -/
theorem text_of_inFile {t : Journal} {path : Bytes}
    (hjson : JsonFile env t path) {c : SinkCall}
    (hnamed : Named env t.session.loaded c.sink)
    (hline : c.sink.line json c.record = .ok c.text)
    (hfile : inFile path c = true) :
    c.record.Utf8 ∧
      c.text = json.text (-1) (logDocument c.record) ++ [newline] := by
  have hend : ascii "\n" = [newline] := by decide +kernel
  obtain ⟨doc, hdoc, logger, hconfigures, hsink⟩ := hnamed
  cases hshape : c.sink with
  | console format =>
    rw [inFile, hshape, Sink.isFile, Bool.false_and] at hfile
    cases hfile
  | file path' format =>
    rw [inFile, hshape, Sink.isFile] at hfile
    obtain ⟨hpath, _⟩ := Bool.and_eq_true_iff.mp hfile
    rw [hshape, of_decide_eq_true hpath] at hsink
    have hformat : format = .json :=
      hjson.json doc hdoc logger hconfigures format hsink
    rw [hshape, Sink.line, Sink.format, hformat, Format.call] at hline
    cases hcall : jsonFormat json c.record with
    | error e =>
      rw [hcall] at hline
      cases hline
    | ok text =>
      rw [hcall] at hline
      have hutf : c.record.Utf8 :=
        (jsonFormat_returns_iff json c.record).mp ⟨text, hcall⟩
      refine ⟨hutf, ?_⟩
      rw [jsonFormat, Nlohmann.dump_ok ((logDocument_dumpable c.record).mpr hutf),
        noexcept_ok] at hcall
      rw [Except.ok.inj hcall, ← hend]
      exact (Except.ok.inj hline).symm

/-- A file of JSON records is their lines. -/
theorem content_eq {t : Journal} (h : Accounted env json t) {path : Bytes}
    (hjson : JsonFile env t path) :
    (∀ i ∈ t.records path, i.Utf8) ∧
      t.content path =
        joined [newline]
          ((t.records path).map fun i => json.text (-1) (logDocument i)) := by
  have hcalls : ∀ c ∈ t.calls.filter (inFile path),
      c.record.Utf8 ∧
        c.text = json.text (-1) (logDocument c.record) ++ [newline] := by
    intro c hc
    obtain ⟨hmem, hfile⟩ := List.mem_filter.mp hc
    obtain ⟨_, hnamed, hline⟩ := h.calls c hmem
    exact text_of_inFile hjson hnamed hline hfile
  unfold records content joined
  constructor
  · intro i hi
    obtain ⟨c, hc, rfl⟩ := List.mem_map.mp hi
    exact (hcalls c hc).1
  · rw [List.map_map, List.map_map, ← List.flatMap_def]
    exact List.flatMap_congr fun c hc => (hcalls c hc).2

theorem newline_notMem_line (hsingle : SingleLine json) {i : LogInfo}
    (hi : i.Utf8) :
    newline ∉ json.text (-1) (logDocument i) :=
  hsingle _ ((logDocument_dumpable i).mpr hi) (logDocument_floatFree i)

/-- Records whose documents have the same texts, one by one. -/
theorem recordedAlike_of_texts (hdump : DumpInjective json) {is is' : List LogInfo}
    (his : ∀ i ∈ is, i.Utf8) (his' : ∀ i ∈ is', i.Utf8) :
    is.map (fun i => json.text (-1) (logDocument i)) =
        is'.map (fun i => json.text (-1) (logDocument i)) ↔
      List.Forall₂ LogInfo.RecordedAlike is is' := by
  induction is generalizing is' with
  | nil => cases is' <;> simp
  | cons i is ih =>
    cases is' with
    | nil => simp
    | cons i' is' =>
      obtain ⟨hi, his⟩ := List.forall_mem_cons.mp his
      obtain ⟨hi', his'⟩ := List.forall_mem_cons.mp his'
      rw [List.map_cons, List.map_cons, List.cons.injEq, List.forall₂_cons,
        ih his his', ← jsonFormat_eq_iff hdump hi hi']
      simp only [jsonFormat, Nlohmann.dump_ok ((logDocument_dumpable _).mpr hi),
        Nlohmann.dump_ok ((logDocument_dumpable _).mpr hi'), noexcept_ok,
        Except.ok.injEq]

/-- A file of JSON records, one line for each, holds what was recorded: it falls
apart into the lines again, and two runs leave the same file exactly when they have
recorded the same, record by record. -/
theorem run_content (hdump : DumpInjective json) (hsingle : SingleLine json)
    {events events' : List JournalEvent} {t t' : Journal}
    (hrun : run env json format events = .ok t)
    (hrun' : run env json format events' = .ok t') {path : Bytes}
    (hjson : JsonFile env t path) (hjson' : JsonFile env t' path) :
    (pieces [newline] (t.content path)).1 =
        (t.records path).map (fun i => json.text (-1) (logDocument i)) ∧
      (t.content path = t'.content path ↔
        List.Forall₂ LogInfo.RecordedAlike (t.records path) (t'.records path)) := by
  obtain ⟨hutf, hcontent⟩ := content_eq (accounted_of_run json format hrun).1 hjson
  obtain ⟨hutf', hcontent'⟩ :=
    content_eq (accounted_of_run json format hrun').1 hjson'
  have hlines : ∀ {is : List LogInfo}, (∀ i ∈ is, i.Utf8) →
      (pieces [newline]
          (joined [newline] (is.map fun i => json.text (-1) (logDocument i)))).1 =
        is.map fun i => json.text (-1) (logDocument i) := by
    intro is his
    refine pieces_rows fun row hrow => ?_
    obtain ⟨i, hi, rfl⟩ := List.mem_map.mp hrow
    exact newline_notMem_line hsingle (his i hi)
  refine ⟨by rw [hcontent, hlines hutf], ?_⟩
  rw [← recordedAlike_of_texts hdump hutf hutf', hcontent, hcontent']
  constructor
  · intro hsame
    rw [← hlines hutf, hsame, hlines hutf']
  · intro hsame
    rw [hsame]

end Journal

/-! ## The library -/

theorem newline_notMem_quote (text : Bytes) : newline ∉ quote text := by
  have hescaped : ∀ b ∈ escapedBytes, newline ∉ escapeByte b :=
    forall_of_all (by decide +kernel)
  have hbyte : ∀ b, newline ∉ escapeByte b := by
    intro b
    by_cases hb : Unescaped b
    · rw [escapeByte_unescaped hb, List.mem_singleton]
      intro hnewline
      rw [← hnewline] at hb
      exact absurd hb.1 (by decide)
    · exact hescaped b (mem_escapedBytes hb)
  rw [quote, List.mem_cons, List.mem_append, escape, List.mem_flatMap, not_or,
    not_or]
  refine ⟨by decide, ?_, by decide⟩
  rintro ⟨b, _, hb⟩
  exact hbyte b hb

theorem newline_notMem_integerText (i : Int) : newline ∉ integerText i := by
  unfold integerText
  split
  · rw [List.mem_cons, not_or]
    exact ⟨by decide, newline_notMem_decimal _⟩
  · exact newline_notMem_decimal _

section

variable (float : UInt64 → Bytes)

mutual

theorem newline_notMem_compact : ∀ d : Json, d.floatFree = true →
    newline ∉ d.compact float
  | .null, _ => by
      rw [Json.compact]
      decide +kernel
  | .bool true, _ => by
      rw [Json.compact]
      decide +kernel
  | .bool false, _ => by
      rw [Json.compact]
      decide +kernel
  | .number (.integer i), _ => by
      rw [Json.compact]
      exact newline_notMem_integerText i
  | .number (.unsigned n), _ => by
      rw [Json.compact]
      exact newline_notMem_decimal n
  | .number (.float bits), h => by cases h
  | .string text, _ => by
      rw [Json.compact]
      exact newline_notMem_quote text
  | .array [], _ => by
      rw [Json.compact]
      decide
  | .array (item :: items), h => by
      obtain ⟨hitem, hitems⟩ := Bool.and_eq_true_iff.mp h
      rw [Json.compact, List.mem_cons, List.mem_append, not_or, not_or]
      exact ⟨by decide, newline_notMem_compact item hitem,
        newline_notMem_itemsBehind items hitems⟩
  | .object [], _ => by
      rw [Json.compact]
      decide
  | .object ((name, value) :: members), h => by
      obtain ⟨hvalue, hmembers⟩ := Bool.and_eq_true_iff.mp h
      rw [Json.compact, List.mem_cons, List.mem_append, List.mem_cons,
        List.mem_append, not_or, not_or, not_or, not_or]
      exact ⟨by decide, newline_notMem_quote name, by decide,
        newline_notMem_compact value hvalue,
        newline_notMem_membersBehind members hmembers⟩

theorem newline_notMem_itemsBehind : ∀ items : List Json,
    Json.itemsFloatFree items = true → newline ∉ Json.itemsBehind float items
  | [], _ => by
      rw [Json.itemsBehind]
      decide
  | item :: items, h => by
      obtain ⟨hitem, hitems⟩ := Bool.and_eq_true_iff.mp h
      rw [Json.itemsBehind, List.mem_cons, List.mem_append, not_or, not_or]
      exact ⟨by decide, newline_notMem_compact item hitem,
        newline_notMem_itemsBehind items hitems⟩

theorem newline_notMem_membersBehind : ∀ members : List (Bytes × Json),
    Json.membersFloatFree members = true →
      newline ∉ Json.membersBehind float members
  | [], _ => by
      rw [Json.membersBehind]
      decide
  | (name, value) :: members, h => by
      obtain ⟨hvalue, hmembers⟩ := Bool.and_eq_true_iff.mp h
      rw [Json.membersBehind, List.mem_cons, List.mem_append, List.mem_cons,
        List.mem_append, not_or, not_or, not_or, not_or]
      exact ⟨by decide, newline_notMem_quote name, by decide,
        newline_notMem_compact value hvalue,
        newline_notMem_membersBehind members hmembers⟩

end

end

theorem writesCompact_singleLine : SingleLine writesCompact :=
  fun d _ hd => newline_notMem_compact _ d hd

namespace Journal

/-! ## A file -/

/-- `level: info`, and one file for JSON. -/
def fileKeys : List (Bytes × Yaml) :=
  [ (ascii "level", text "info"),
    (ascii "sinks", .sequence [.map [(text "file", .map
      [ (text "enabled", text "true"), (text "format", text "json"),
        (text "path", text "uni.log") ])]]) ]

/-- A statement with this message. -/
def accepted (msg : Bytes) : LogStatement where
  subject := .code .success
  loc := { fileName := ascii "http_server.cc", line := 245, column := 5 }
  msg := msg
  details := [(ascii "client_id", ascii "1")]
  timepoint := ascii "2025-01-01 00:00:00.000"

/-- The statement is executed in a program that was started with that document. -/
def acceptedEvents (msg : Bytes) : List JournalEvent :=
  [ .session (.call (.startAt (ascii "log.yml") (documentOf fileKeys) .ready)),
    .session .proceed, .session .proceed, .session .proceed,
    .check (accepted msg),
    .write (fun _ => { writes := true, flushes := true }) (accepted msg).loc ]

theorem run_acceptedEvents (msg : Bytes) :
    ∃ t, run plainEnvironment writesCompact plainFormat (acceptedEvents msg) =
      .ok t ∧
      t.session.loaded = [documentOf fileKeys] ∧ ∀ c ∈ t.calls, c.taken = true :=
  ⟨_, rfl, rfl, fun _ hc => (by cases List.mem_singleton.mp hc; rfl)⟩

/-- The file of the only sink. -/
def logPath : Bytes := ascii "uni.log"

theorem configures_fileKeys :
    LogManager.configures plainEnvironment (documentOf fileKeys) =
      some { level := .info, sinks := [.file logPath .json] } := by
  decide +kernel

/-- The configuration of `checkedEvents` when the statement is checked: it lets
everything pass, but has no sink. -/
def traceKeys : List (Bytes × Yaml) := Session.levelKeys "trace"

/-- The file is changed between the check of a statement and the record. -/
def checkedEvents : List JournalEvent :=
  [ .session (.call (.startAt (ascii "log.yml") (documentOf traceKeys) .ready)),
    .session .proceed, .session .proceed, .session .proceed,
    .check (accepted (ascii "Accepted")),
    .session (.reload (documentOf fileKeys)), .session .workerEnds,
    .write (fun _ => { writes := true, flushes := true })
      (accepted (ascii "Accepted")).loc ]

/-- The record goes to the file that the second configuration names. -/
theorem run_calls_checked :
    ∃ t c, run plainEnvironment writesCompact plainFormat checkedEvents = .ok t ∧
      t.calls = [c] ∧ c.sink = .file logPath .json ∧
      Named plainEnvironment [documentOf traceKeys, documentOf fileKeys] c.sink ∧
      Passed plainEnvironment [documentOf traceKeys, documentOf fileKeys]
        c.record.status ∧
      c.sink.line writesCompact c.record = .ok c.text := by
  obtain ⟨t, c, hrun, hloaded, hcalls, hsink⟩ : ∃ t c,
      run plainEnvironment writesCompact plainFormat checkedEvents = .ok t ∧
      t.session.loaded = [documentOf traceKeys, documentOf fileKeys] ∧
      t.calls = [c] ∧ c.sink = .file logPath .json := ⟨_, _, rfl, rfl, rfl, rfl⟩
  have hc : c ∈ t.calls := by
    rw [hcalls]
    exact List.mem_singleton_self c
  obtain ⟨_, hpassed, hnamed, hline⟩ :=
    run_calls writesCompact plainFormat hrun c hc
  rw [hloaded] at hpassed hnamed
  exact ⟨t, c, hrun, hcalls, hsink, hnamed, hpassed, hline⟩

theorem jsonFile_of_loaded {t : Journal}
    (hloaded : t.session.loaded = [documentOf fileKeys])
    (htaken : ∀ c ∈ t.calls, c.taken = true) :
    JsonFile plainEnvironment t logPath := by
  have hsinks : ∀ doc ∈ t.session.loaded, ∀ logger,
      LogManager.configures plainEnvironment doc = some logger →
        logger.sinks = [.file logPath .json] := by
    intro doc hdoc logger hconfigures
    rw [hloaded, List.mem_singleton] at hdoc
    rw [hdoc, configures_fileKeys] at hconfigures
    rw [← Option.some_inj.mp hconfigures]
  refine
    { json := fun doc hdoc logger hconfigures format hsink => ?_
      once := fun doc hdoc logger hconfigures => ?_
      named := ⟨by decide +kernel, fun doc hdoc logger hconfigures sink hsink => ?_⟩
      taken := fun c hc _ => htaken c hc }
  · rw [hsinks doc hdoc logger hconfigures, List.mem_singleton] at hsink
    cases hsink
    rfl
  · rw [hsinks doc hdoc logger hconfigures]
    exact List.countP_le_length
  · rw [hsinks doc hdoc logger hconfigures, List.mem_singleton] at hsink
    rw [hsink]
    decide +kernel

/-- Two programs whose messages differ. -/
theorem run_content_accepted :
    ∃ t t', run plainEnvironment writesCompact plainFormat
        (acceptedEvents (ascii "Accepted")) = .ok t ∧
      run plainEnvironment writesCompact plainFormat
        (acceptedEvents (ascii "Skipping")) = .ok t' ∧
      (t.content logPath = t'.content logPath ↔
        List.Forall₂ LogInfo.RecordedAlike (t.records logPath)
          (t'.records logPath)) := by
  obtain ⟨t, hrun, hloaded, htaken⟩ := run_acceptedEvents (ascii "Accepted")
  obtain ⟨t', hrun', hloaded', htaken'⟩ := run_acceptedEvents (ascii "Skipping")
  exact ⟨t, t', hrun, hrun', (run_content writesCompact_injective
    writesCompact_singleLine hrun hrun' (jsonFile_of_loaded hloaded htaken)
    (jsonFile_of_loaded hloaded' htaken')).2⟩

end Journal

end UniServer.Logging
