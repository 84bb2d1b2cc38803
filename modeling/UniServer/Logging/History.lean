/-
  Logging/History.lean --- the log of a program whose calls of `LOG` are known.

  The program starts the log first.  Before and in each call of `LOG` the worker of
  the watcher may do what it does by itself.  What there is in the end are the
  journal and the descriptors of the watcher.

  `run_isOk_iff` says which of these programs are not ended by their own records,
  and `run_left` what the log holds then.
-/
import UniServer.Http.ParseLog
import UniServer.Logging.Journal
import UniServer.Logging.WatcherDescriptors

set_option autoImplicit false

namespace UniServer.Logging

open UniServer.Foundation UniServer.Common UniServer.Http

/-! ## Events -/

/-- What comes with a call of `LOG`: what the worker does before the statement calls
`ShouldLog` and before it calls `LogSystem::Get`, the place and the time, and how
the streams of the sinks take the record. -/
structure Moment where
  before : List Session.WorkerEvent
  between : List Session.WorkerEvent
  loc : SourceLocation
  timepoint : Bytes
  outcome : Sink → StreamOutcome

/-- The place and the time can be written. -/
structure Moment.Utf8 (m : Moment) : Prop where
  fileName : validUtf8 m.loc.fileName = true
  timepoint : validUtf8 m.timepoint = true

/-- The statement of a call. -/
def Moment.statement (m : Moment) (call : LogCall) : LogStatement where
  subject := .level call.level
  loc := m.loc
  msg := call.msg
  details := call.details
  timepoint := m.timepoint

namespace History

def worker (events : List Session.WorkerEvent) : List JournalEvent :=
  events.map fun e => .session e.event

/-- A call of `LOG`. -/
def call (m : Moment) (call : LogCall) : List JournalEvent :=
  worker m.before ++ .check (m.statement call) ::
    (worker m.between ++ [.write m.outcome m.loc])

/-- The calls that a program makes, each at its moment. -/
def calls : (Nat → Moment) → List LogCall → List JournalEvent
  | _, [] => []
  | moments, first :: rest =>
      call (moments 0) first ++ calls (fun k => moments (k + 1)) rest

/-- `LogSystem::Start(path)`, the calls of `LOG`, and what the worker does behind
them. -/
def events (path : Bytes) (doc : Document) (setup : Setup) (moments : Nat → Moment)
    (trace : List LogCall) (last : List Session.WorkerEvent) : List JournalEvent :=
  (Session.operation (.startAt path doc setup)).map .session ++
    (calls moments trace ++ worker last)

end History

/-- The journal of a process, and the descriptors of its watcher. -/
structure ProcessLog where
  journal : Journal
  watched : Watched

namespace ProcessLog

variable (env : Environment) (json : Nlohmann)
  (format : Bytes → List FmtArg → Except Bytes Bytes)

/-- Nothing was logged yet. -/
def blank : ProcessLog where
  journal := .blank
  watched := .blank

/-- The log behind these events. -/
def run (events : List JournalEvent) : Run ProcessLog := do
  let journal ← Journal.run env json format events
  let watched ← Watched.run env (events.filterMap Journal.sessionEvent)
  return { journal := journal, watched := watched }

end ProcessLog

namespace History

/-! ## The session -/

theorem sessionEvent_worker (events : List Session.WorkerEvent) :
    (worker events).filterMap Journal.sessionEvent =
      events.map Session.WorkerEvent.event := by
  rw [worker, List.filterMap_map]
  exact congrFun List.filterMap_eq_map' events

theorem sessionEvent_call (m : Moment) (c : LogCall) :
    (call m c).filterMap Journal.sessionEvent =
      (m.before ++ m.between).map Session.WorkerEvent.event := by
  rw [call, List.filterMap_append, List.filterMap_cons_none rfl,
    List.filterMap_append, sessionEvent_worker, sessionEvent_worker,
    List.map_append]
  exact congrArg _ (List.append_nil _)

/-- Behind `Start(path)` the session sees nothing but the worker. -/
theorem sessionEvent_calls (moments : Nat → Moment) (trace : List LogCall) :
    ∃ es : List Session.WorkerEvent,
      (calls moments trace).filterMap Journal.sessionEvent =
        es.map Session.WorkerEvent.event := by
  induction trace generalizing moments with
  | nil => exact ⟨[], rfl⟩
  | cons first rest ih =>
    obtain ⟨es, hrest⟩ := ih fun k => moments (k + 1)
    refine ⟨(moments 0).before ++ (moments 0).between ++ es, ?_⟩
    rw [calls, List.filterMap_append, sessionEvent_call, hrest]
    exact List.map_append.symm

section

variable (env : Environment) (path : Bytes) (doc : Document) (setup : Setup)
  (moments : Nat → Moment) (trace : List LogCall) (last : List Session.WorkerEvent)

/-- The logging system itself does not end the process. -/
theorem run_session :
    ∃ t, Session.run env ((events path doc setup moments trace last).filterMap
        Journal.sessionEvent) = .ok t ∧
      Session.Started env path doc setup t := by
  obtain ⟨t, hrun, hstarted⟩ := Session.run_startAt env path doc setup
  obtain ⟨during, hcalls⟩ := sessionEvent_calls moments trace
  obtain ⟨t', hworker, hdone⟩ := hstarted.run_worker (during ++ last)
  refine ⟨t', ?_, hdone⟩
  have hoperation : ((Session.operation (.startAt path doc setup)).map
      JournalEvent.session).filterMap Journal.sessionEvent =
        Session.operation (.startAt path doc setup) := rfl
  rw [events, List.filterMap_append, List.filterMap_append, hoperation, hcalls,
    sessionEvent_worker, ← List.map_append, Session.run,
    Machine.run_append (Session.step env) hrun]
  exact hworker

end

/-! ## Which programs come to their end -/

theorem check_mem_calls {moments : Nat → Moment} {trace : List LogCall}
    {statement : LogStatement}
    (h : JournalEvent.check statement ∈ calls moments trace) :
    ∃ k, ∃ c ∈ trace, statement = (moments k).statement c := by
  have hnot : ∀ events : List Session.WorkerEvent,
      JournalEvent.check statement ∉ worker events := by
    simp [worker]
  induction trace generalizing moments with
  | nil => cases h
  | cons first rest ih =>
    rw [calls, List.mem_append] at h
    rcases h with hfirst | hrest
    · rw [call, List.mem_append, List.mem_cons, List.mem_append,
        List.mem_singleton] at hfirst
      rcases hfirst with hmem | hsame | hmem | hwrite
      · exact absurd hmem (hnot _)
      · cases hsame
        exact ⟨0, first, List.mem_cons_self, rfl⟩
      · exact absurd hmem (hnot _)
      · cases hwrite
    · obtain ⟨k, c, hc, hsame⟩ := ih hrest
      exact ⟨k + 1, c, List.mem_cons_of_mem _ hc, hsame⟩

theorem linfo_utf8 {m : Moment} (hm : m.Utf8) {c : LogCall} (hc : c.Utf8) :
    (m.statement c).linfo.Utf8 where
  timepoint := hm.timepoint
  fileName := hm.fileName
  details detail hdetail := by
    rw [LogStatement.linfo, Moment.statement, LogSubject.detailsBase,
      List.append_nil] at hdetail
    exact hc detail hdetail

variable {env : Environment} {json : Nlohmann}
  {format : Bytes → List FmtArg → Except Bytes Bytes} {path : Bytes}
  {doc : Document} {setup : Setup} {moments : Nat → Moment} {trace : List LogCall}
  {last : List Session.WorkerEvent}

/-- Nothing but UTF-8 is logged: whatever is configured, all of it can be
written. -/
theorem each_writable (hmoments : ∀ k, (moments k).Utf8)
    (htrace : ∀ c ∈ trace, c.Utf8) :
    Machine.Each (Journal.step env json format) (Journal.Writable format) .blank
      (events path doc setup moments trace last) := by
  refine Journal.each_writable json format fun statement hmem => ?_
  rw [events, List.mem_append, List.mem_append] at hmem
  rcases hmem with hmem | hmem | hmem
  · simp at hmem
  · obtain ⟨k, c, hc, rfl⟩ := check_mem_calls hmem
    exact linfo_utf8 (hmoments k) (htrace c hc)
  · simp [worker] at hmem

/-- The process is not ended by its log exactly when every record that a sink for
JSON is given is UTF-8. -/
theorem run_isOk_iff :
    (∃ log, ProcessLog.run env json format
        (events path doc setup moments trace last) = .ok log) ↔
      Machine.Each (Journal.step env json format) (Journal.Writable format) .blank
        (events path doc setup moments trace last) := by
  obtain ⟨s, hsession, _⟩ := run_session env path doc setup moments trace last
  obtain ⟨watched, hwatched, _⟩ := Watched.kept_of_run hsession
  rw [← Journal.run_isOk_iff json format hsession, ProcessLog.run]
  simp only [hwatched, Run.ok_bind, Run.pure_eq, Run.bind_eq_ok]
  constructor
  · rintro ⟨_, journal, hjournal, _⟩
    exact ⟨journal, hjournal⟩
  · rintro ⟨journal, hjournal⟩
    exact ⟨_, journal, hjournal, rfl⟩

end History

/-! ## What the log holds -/

/-- The log of a process that has started it with `Start(path)`. -/
structure ProcessLog.Left (env : Environment) (json : Nlohmann) (path : Bytes)
    (doc : Document) (setup : Setup) (log : ProcessLog) : Prop where
  started : Session.Started env path doc setup log.journal.session
  accounted : Journal.Accounted env json log.journal
  same : log.watched.session = log.journal.session
  kept : Watched.Kept log.watched

/-- The exit of such a process joins the thread, and leaves no descriptor open. -/
theorem ProcessLog.Left.exit {env : Environment} {json : Nlohmann} {path : Bytes}
    {doc : Document} {setup : Setup} {log : ProcessLog}
    (h : log.Left env json path doc setup) :
    ∃ l, log.watched.exit = .ok l ∧ l.Holds [] := by
  refine h.kept.exit fun w hw => ?_
  rw [h.same] at hw
  exact (h.started.thread w hw).2.1

namespace History

variable {env : Environment} {json : Nlohmann}
  {format : Bytes → List FmtArg → Except Bytes Bytes} {path : Bytes}
  {doc : Document} {setup : Setup} {moments : Nat → Moment} {trace : List LogCall}
  {last : List Session.WorkerEvent} {log : ProcessLog}

theorem run_left (h : ProcessLog.run env json format
    (events path doc setup moments trace last) = .ok log) :
    log.Left env json path doc setup := by
  obtain ⟨journal, hjournal, hrest⟩ := Run.bind_eq_ok.mp h
  obtain ⟨watched, hwatched, hok⟩ := Run.bind_eq_ok.mp hrest
  cases hok
  have hsession := Journal.session_run json format hjournal
  obtain ⟨s, hs, hstarted⟩ := run_session env path doc setup moments trace last
  cases hs.symm.trans hsession
  obtain ⟨watched', hwatched', hsame, hkept⟩ := Watched.kept_of_run hsession
  cases hwatched'.symm.trans hwatched
  exact
    { started := hstarted
      accounted := (Journal.accounted_of_run json format hjournal).1
      same := hsame
      kept := hkept }

end History

end UniServer.Logging
