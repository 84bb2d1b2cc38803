/-
  Logging/Stream.lean --- `LogStream`, the object behind a log statement.

  It is made for a level, a result code or an HTTP status, takes values with `<<`,
  and logs its record when it is destroyed.  The message is a format string for the
  values, but only when there are any; what the fmt library raises is reported as a
  system message, and the record is lost.
-/
import UniServer.Logging.Syslog

set_option autoImplicit false

namespace UniServer.Common

/-! ## Levels of codes -/

/-- The level of the first digit of a code. -/
def Log.ofClass : Nat → Log
  | 1 => .info
  | 2 => .info
  | 3 => .info
  | 4 => .warning
  | 5 => .error
  | _ => .unknown

/-- `to_log(http)`. -/
def HttpStatus.toLog (v : HttpStatus) : Log := Log.ofClass (v.code.toNat / 100)

/-- `to_log(retCode)`. -/
def RetCode.toLog (v : RetCode) : Log := Log.ofClass (v.value / 10000)

end UniServer.Common

namespace UniServer.Logging

open UniServer.Foundation UniServer.Common UniServer.Http

/-! ## The constructors -/

/-- What a log statement is for. -/
inductive LogSubject where
  | level (v : Log)
  | code (v : RetCode)
  | status (v : HttpStatus)
  deriving DecidableEq

namespace LogSubject

/-- `to_log`. -/
def toLog : LogSubject → Log
  | .level v => v
  | .code v => v.toLog
  | .status v => v.toLog

/-- `details_base`. -/
def detailsBase : LogSubject → List (Bytes × Bytes)
  | .level _ => []
  | .code v =>
      [ (ascii "retCode", decimal v.value),
        (ascii "retMesg", v.retMesg),
        (ascii "status", decimal v.toHttpStatus.code.toNat),
        (ascii "obsolete_reason", obsoleteReason v.toHttpStatus) ]
  | .status v =>
      [ (ascii "status", decimal v.code.toNat),
        (ascii "obsolete_reason", obsoleteReason v) ]

end LogSubject

/-- A log statement: the arguments of the macro, the time at which they are
evaluated, and the values given to `<<`, as `to_string` writes them. -/
structure LogStatement where
  subject : LogSubject
  loc : SourceLocation
  msg : Bytes := []
  details : List (Bytes × Bytes) := []
  timepoint : Bytes
  values : List Bytes := []
  deriving DecidableEq

/-- `LogStream`. -/
structure LogStream where
  logger : Logger
  linfo : LogInfo
  buffer : List Bytes

namespace LogStream

/-- The constructors of `LogStream`. -/
def new (logger : Logger) (subject : LogSubject) (loc : SourceLocation)
    (msg : Bytes) (details : List (Bytes × Bytes)) (timepoint : Bytes) :
    LogStream where
  logger := logger
  linfo :=
    { status := subject.toLog,
      info := msg,
      loc := loc,
      details := details ++ subject.detailsBase,
      timepoint := timepoint }
  buffer := []

/-- `operator<<`. -/
def put (s : LogStream) (value : Bytes) : LogStream :=
  { s with buffer := s.buffer ++ [value] }

/-- The stream of a statement. -/
def ofStatement (logger : Logger) (statement : LogStatement) : LogStream :=
  statement.values.foldl put
    (new logger statement.subject statement.loc statement.msg statement.details
      statement.timepoint)

variable (format : Bytes → List FmtArg → Except Bytes Bytes)

/-- The record as the destructor completes it, or the text of what `vformat`
raises. -/
def completed (s : LogStream) : Except Bytes LogInfo :=
  if s.buffer.isEmpty then .ok s.linfo
  else (format s.linfo.info (s.buffer.map .string)).map fun info =>
    { s.linfo with info := info }

end LogStream

namespace LogStatement

variable (format : Bytes → List FmtArg → Except Bytes Bytes)

/-- The record of a statement before its message is formatted. -/
def linfo (statement : LogStatement) : LogInfo where
  status := statement.subject.toLog
  info := statement.msg
  loc := statement.loc
  details := statement.details ++ statement.subject.detailsBase
  timepoint := statement.timepoint

/-- The record that a statement logs, if it logs one. -/
def record (statement : LogStatement) : Except Bytes LogInfo :=
  if statement.values.isEmpty then .ok statement.linfo
  else (format statement.msg (statement.values.map .string)).map fun info =>
    { statement.linfo with info := info }

end LogStatement

theorem LogStream.foldl_put (s : LogStream) (values : List Bytes) :
    values.foldl put s = { s with buffer := s.buffer ++ values } := by
  induction values generalizing s with
  | nil => rw [List.foldl_nil, List.append_nil]
  | cons value values ih =>
    rw [List.foldl_cons, ih, put, List.append_assoc]
    rfl

/-- The record does not depend on the logger. -/
theorem LogStream.completed_eq (format : Bytes → List FmtArg → Except Bytes Bytes)
    (logger : Logger) (statement : LogStatement) :
    (ofStatement logger statement).completed format = statement.record format := by
  rw [ofStatement, foldl_put]
  rfl

theorem LogStream.ofStatement_logger (logger : Logger) (statement : LogStatement) :
    (ofStatement logger statement).logger = logger := by
  rw [ofStatement, foldl_put]
  rfl

/-- Only the message of a record is formatted. -/
theorem LogStatement.record_eq_ok
    {format : Bytes → List FmtArg → Except Bytes Bytes}
    {statement : LogStatement} {i : LogInfo}
    (h : statement.record format = .ok i) :
    ({ i with info := statement.msg } : LogInfo) = statement.linfo := by
  unfold record at h
  split at h
  · cases h
    rfl
  · cases hformat : format statement.msg (statement.values.map .string) with
    | error what =>
      rw [hformat] at h
      cases h
    | ok info =>
      rw [hformat] at h
      cases h
      rfl

/-! ## The destructor -/

variable (json : Nlohmann) (format : Bytes → List FmtArg → Except Bytes Bytes)

/-- A call of a sink: what it was given, what it writes, and whether its stream
takes that without failing. -/
structure SinkCall where
  sink : Sink
  record : LogInfo
  text : Bytes
  taken : Bool
  deriving DecidableEq

/-- The stream of a sink takes a text; that of the console always does. -/
def Sink.takes (outcome : Sink → StreamOutcome) : Sink → Bool
  | .console _ => true
  | .file path format => (outcome (.file path format)).writes

/-- The sink is a file with this path. -/
def Sink.isFile (path : Bytes) : Sink → Bool
  | .console _ => false
  | .file path' _ => decide (path' = path)

/-- `Logger::log`, with the calls of the sinks. -/
def Logger.calls (outcome : Sink → StreamOutcome) (logger : Logger)
    (info : LogInfo) : Run (List SinkCall) :=
  noexcept (logger.sinks.mapM fun sink => do
    let (_, text) ← sink.log json outcome info
    let taken := sink.takes outcome
    return { sink := sink, record := info, text := text, taken := taken })

/-- What the destructor of a `LogStream` does. -/
inductive Destroyed where
  /-- `Logger::log` has called the sinks -/
  | logged (calls : List SinkCall)
  /-- `sys_error` has reported what `vformat` has raised -/
  | reported (outcome : SyslogOutcome)

/-- `LogStream::~LogStream`; `loc` is where `sys_error` is called. -/
def LogStream.destroy (outcome : Sink → StreamOutcome) (loc : SourceLocation)
    (s : LogStream) : Run Destroyed :=
  match s.completed format with
  | .ok info => do return .logged (← s.logger.calls json outcome info)
  | .error what =>
      .ok (.reported (sysError format { format := what, loc := loc } []))

/-! ## Calls of sinks -/

/-- The line that a sink makes of a record. -/
def Sink.line (sink : Sink) (info : LogInfo) : Run Bytes :=
  (sink.format.call json info).map (· ++ ascii "\n")

/-- What a sink writes does not depend on its stream. -/
theorem sinkLog_text {outcome : Sink → StreamOutcome} {info : LogInfo} {sink : Sink}
    {written : Bool × Bytes} (h : sink.log json outcome info = .ok written) :
    sink.line json info = .ok written.2 := by
  cases sink with
  | console format =>
    rw [Sink.log, ConsoleSink.log, noexcept_eq_ok_iff] at h
    obtain ⟨text, hcall, hok⟩ := Run.bind_eq_ok.mp h
    cases hok
    rw [Sink.line, Sink.format, hcall]
    rfl
  | file path format =>
    rw [Sink.log, FileSink.log, noexcept_eq_ok_iff] at h
    obtain ⟨text, hcall, hok⟩ := Run.bind_eq_ok.mp h
    rw [Sink.line, Sink.format, hcall]
    simp only [Run.pure_eq] at hok
    split at hok
    · split at hok <;> cases hok <;> rfl
    · cases hok
      rfl

/-- The calls of a logger are its sinks, in order, each with its line. -/
theorem loggerCalls_eq {outcome : Sink → StreamOutcome} {logger : Logger}
    {info : LogInfo} {calls : List SinkCall}
    (h : logger.calls json outcome info = .ok calls) :
    calls.map SinkCall.sink = logger.sinks ∧
      ∀ c ∈ calls, c.record = info ∧ c.sink.line json info = .ok c.text := by
  rw [Logger.calls, noexcept_eq_ok_iff] at h
  generalize logger.sinks = sinks at h ⊢
  induction sinks generalizing calls with
  | nil =>
    rw [List.mapM_nil] at h
    cases h
    exact ⟨rfl, by simp⟩
  | cons sink sinks ih =>
    rw [List.mapM_cons] at h
    obtain ⟨c, hc, hrest⟩ := Run.bind_eq_ok.mp h
    obtain ⟨rest, hcalls, hok⟩ := Run.bind_eq_ok.mp hrest
    cases hok
    obtain ⟨written, hwritten, hmade⟩ := Run.bind_eq_ok.mp hc
    cases hmade
    obtain ⟨hsinks, hlines⟩ := ih hcalls
    refine ⟨by rw [List.map_cons, hsinks], ?_⟩
    intro c hc
    rcases List.mem_cons.mp hc with rfl | hc
    · exact ⟨rfl, sinkLog_text json hwritten⟩
    · exact hlines c hc

/-- `Logger.log` is the same call. -/
theorem loggerCalls_isOk (outcome : Sink → StreamOutcome) (logger : Logger)
    (info : LogInfo) :
    (∃ calls, logger.calls json outcome info = .ok calls) ↔
      logger.log json outcome info = .ok () := by
  simp only [Logger.calls, Logger.log, noexcept_eq_ok_iff]
  generalize logger.sinks = sinks
  induction sinks with
  | nil => simp
  | cons sink sinks ih =>
    rw [List.mapM_cons, List.forM_cons, Run.bind_eq_ok]
    constructor
    · rintro ⟨calls, hcalls⟩
      obtain ⟨c, hc, hrest⟩ := Run.bind_eq_ok.mp hcalls
      obtain ⟨rest, hrest, _⟩ := Run.bind_eq_ok.mp hrest
      obtain ⟨written, hwritten, _⟩ := Run.bind_eq_ok.mp hc
      exact ⟨(), Run.bind_eq_ok.mpr ⟨written, hwritten, rfl⟩, ih.mp ⟨rest, hrest⟩⟩
    · rintro ⟨_, hsink, hrest⟩
      obtain ⟨written, hwritten, _⟩ := Run.bind_eq_ok.mp hsink
      obtain ⟨calls, hcalls⟩ := ih.mpr hrest
      refine ⟨{ sink := sink, record := info, text := written.2,
                taken := sink.takes outcome } :: calls, ?_⟩
      rw [hwritten, hcalls]
      rfl

end UniServer.Logging
