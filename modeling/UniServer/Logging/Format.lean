/-
  Logging/Format.lean --- log records, their two formats, and the sinks that write
  them.

  The console format only puts texts together.  The JSON format renders a document,
  and rendering throws on a text that is not UTF-8.  It is called from functions
  that are `noexcept`, as it is itself, so that such a record ends the process.

  The errors of a stream are outcomes, and system messages are left out.
-/
import UniServer.Http.Json
import UniServer.Logging.Manager

set_option autoImplicit false

namespace UniServer.Logging

open UniServer.Foundation UniServer.Common UniServer.Http

/-! ## Records -/

/-- `std::source_location`. -/
structure SourceLocation where
  fileName : Bytes
  line : Nat
  column : Nat
  deriving DecidableEq

/-- `LogInfo`. -/
structure LogInfo where
  status : Log
  info : Bytes
  loc : SourceLocation
  details : List (Bytes × Bytes)
  timepoint : Bytes
  deriving DecidableEq

/-- `ShouldLog`, with the level that is set. -/
def shouldLog (setLevel level : Log) : Bool :=
  !(decide (setLevel.value = 0) || decide (setLevel.value > level.value))

/-! ## Formats -/

/-- One line of the details, as `ConsoleFormat` writes it. -/
def detailLine (detail : Bytes × Bytes) : Bytes :=
  ascii "\t- " ++ detail.1 ++ ascii ": \"" ++ detail.2 ++ ascii "\"\n"

/-- `ConsoleFormat`; formatting strings and numbers with a fixed text does not
throw. -/
def consoleFormat (i : LogInfo) : Bytes :=
  let base := ascii "[" ++ i.timepoint ++ ascii "] [" ++ i.status.coloredReason ++
    ascii "] " ++ i.loc.fileName ++ ascii ":(" ++ decimal i.loc.line ++ ascii ":" ++
    decimal i.loc.column ++ ascii ") \"" ++ i.info ++ ascii "\""
  if i.details = [] then base
  else
    let base := base ++ ascii " details:\n"
    let base := i.details.foldl (fun base detail => base ++ detailLine detail) base
    base.dropLast

/-- A `std::pair` of strings, as the library converts it. -/
def pairToJson (detail : Bytes × Bytes) : Json :=
  .array [.string detail.1, .string detail.2]

/-- The document that `JsonFormat` builds. -/
def logDocument (i : LogInfo) : Json :=
  .object
    [ (ascii "timepoint", .string i.timepoint),
      (ascii "status_code", .number (.integer i.status.value)),
      (ascii "status", .string i.status.obsoleteReason),
      (ascii "file", .string i.loc.fileName),
      (ascii "line", .number (.unsigned i.loc.line)),
      (ascii "details", .array (i.details.map pairToJson)) ]

variable (json : Nlohmann)

/-- `JsonFormat`. -/
def jsonFormat (i : LogInfo) : Run Bytes :=
  noexcept (json.dump (logDocument i) (-1))

/-- A call of a `Format`. -/
def Format.call : Format → LogInfo → Run Bytes
  | .console, i => .ok (consoleFormat i)
  | .json, i => jsonFormat json i

/-! ## Sinks -/

/-- What the calls of the stream of a sink come to. -/
structure StreamOutcome where
  /-- `file_ << inf << '\n'` does not fail -/
  writes : Bool
  /-- nor does `file_.flush()` -/
  flushes : Bool
  deriving DecidableEq

/-- `ConsoleSink::log`: the value returned, and the text that is printed. -/
def ConsoleSink.log (format : Format) (info : LogInfo) : Run (Bool × Bytes) :=
  noexcept do
    let text ← format.call json info
    return (true, text ++ ascii "\n")

/-- `FileSink::log`: the value returned, and the text that is given to the file. -/
def FileSink.log (format : Format) (outcome : StreamOutcome) (info : LogInfo) :
    Run (Bool × Bytes) :=
  noexcept do
    let inf ← format.call json info
    let text := inf ++ ascii "\n"
    if outcome.writes then
      if info.status.important then
        return (outcome.flushes, text)
      else
        return (true, text)
    else
      return (false, text)

/-- `ISink::log`. -/
def Sink.log (outcome : Sink → StreamOutcome) (info : LogInfo) :
    Sink → Run (Bool × Bytes)
  | .console format => ConsoleSink.log json format info
  | .file path format => FileSink.log json format (outcome (.file path format)) info

/-- `Logger::log`: the `for_each` over the sinks. -/
def Logger.log (outcome : Sink → StreamOutcome) (logger : Logger) (info : LogInfo) :
    Run Unit :=
  noexcept (forM logger.sinks fun sink => do
    let _ ← sink.log json outcome info
    return ())

/-! ## When a record can be written -/

/-- The texts of a record that go into its document are UTF-8. -/
structure LogInfo.Utf8 (i : LogInfo) : Prop where
  timepoint : validUtf8 i.timepoint = true
  fileName : validUtf8 i.loc.fileName = true
  details : ∀ detail ∈ i.details,
    validUtf8 detail.1 = true ∧ validUtf8 detail.2 = true

theorem itemsDumpable_pairs (details : List (Bytes × Bytes)) :
    Json.itemsDumpable (details.map pairToJson) = true ↔
      ∀ detail ∈ details, validUtf8 detail.1 = true ∧
        validUtf8 detail.2 = true := by
  induction details with
  | nil => simp [Json.itemsDumpable]
  | cons detail details ih =>
    rw [List.map_cons, Json.itemsDumpable, Bool.and_eq_true, ih,
      List.forall_mem_cons]
    simp [pairToJson, Json.dumpable, Json.itemsDumpable]

/-- What keeps a record from being dumped is one of its own texts. -/
theorem logDocument_dumpable (i : LogInfo) :
    (logDocument i).dumpable = true ↔ i.Utf8 := by
  have hnames : validUtf8 (ascii "timepoint") = true ∧
      validUtf8 (ascii "status_code") = true ∧ validUtf8 (ascii "status") = true ∧
      validUtf8 (ascii "file") = true ∧ validUtf8 (ascii "line") = true ∧
      validUtf8 (ascii "details") = true := by
    decide +kernel
  have hstatus : validUtf8 i.status.obsoleteReason = true :=
    validUtf8_of_ascii i.status.obsoleteReason_ascii
  have hdumpable : (logDocument i).dumpable = true ↔
      validUtf8 i.timepoint = true ∧ validUtf8 i.loc.fileName = true ∧
        Json.itemsDumpable (i.details.map pairToJson) = true := by
    simp [logDocument, Json.dumpable, Json.membersDumpable, hnames, hstatus]
  rw [hdumpable, itemsDumpable_pairs]
  constructor
  · intro h
    exact ⟨h.1, h.2.1, h.2.2⟩
  · intro h
    exact ⟨h.timepoint, h.fileName, h.details⟩

/-- `JsonFormat` returns on these records and no others. -/
theorem jsonFormat_returns_iff (i : LogInfo) :
    (∃ text, jsonFormat json i = .ok text) ↔ i.Utf8 := by
  rw [← logDocument_dumpable, ← json.dump_eq_ok_iff (-1)]
  simp only [jsonFormat, noexcept_eq_ok_iff]

/-- On any other record it ends the process. -/
theorem jsonFormat_terminates_iff (i : LogInfo) :
    jsonFormat json i = .error .terminate ↔ ¬ i.Utf8 := by
  rw [← jsonFormat_returns_iff json i]
  constructor
  · intro hends
    rw [hends]
    exact fun ⟨text, htext⟩ => (by cases htext)
  · intro hno
    unfold jsonFormat Nlohmann.dump at hno ⊢
    split
    · rename_i hdump
      rw [if_pos hdump] at hno
      exact absurd ⟨_, rfl⟩ hno
    · rfl

theorem formatCall_returns_iff (format : Format) (i : LogInfo) :
    (∃ text, format.call json i = .ok text) ↔ (format = .json → i.Utf8) := by
  cases format with
  | console => simp [Format.call]
  | json => simpa [Format.call] using jsonFormat_returns_iff json i

/-- The format of a sink. -/
def Sink.format : Sink → Format
  | .console format => format
  | .file _ format => format

/-- A sink returns on a record unless it formats it as JSON and cannot. -/
theorem sinkLog_returns_iff (outcome : Sink → StreamOutcome) (i : LogInfo)
    (sink : Sink) :
    (∃ written, sink.log json outcome i = .ok written) ↔
      (sink.format = .json → i.Utf8) := by
  rw [← formatCall_returns_iff json]
  cases sink with
  | console format =>
    simp [Sink.log, Sink.format, ConsoleSink.log, noexcept_eq_ok_iff,
      Run.bind_eq_ok]
  | file path format =>
    simp only [Sink.log, Sink.format, FileSink.log, noexcept_eq_ok_iff]
    cases hformat : format.call json i with
    | error e => simp
    | ok text =>
      rw [Run.ok_bind]
      refine iff_of_true ?_ ⟨text, rfl⟩
      split
      · split
        · exact ⟨_, rfl⟩
        · exact ⟨_, rfl⟩
      · exact ⟨_, rfl⟩

/-- So does a logger, unless one of its sinks does not. -/
theorem loggerLog_returns_iff (outcome : Sink → StreamOutcome) (logger : Logger)
    (i : LogInfo) :
    logger.log json outcome i = .ok () ↔
      ∀ sink ∈ logger.sinks, sink.format = .json → i.Utf8 := by
  rw [Logger.log, noexcept_eq_ok_iff]
  induction logger.sinks with
  | nil => simp
  | cons sink sinks ih =>
    rw [List.forM_cons, Run.bind_eq_ok, List.forall_mem_cons, ← ih,
      ← sinkLog_returns_iff json outcome i sink]
    constructor
    · intro hlogs
      obtain ⟨_, hsink, hsinks⟩ := hlogs
      obtain ⟨written, hwritten, _⟩ := Run.bind_eq_ok.mp hsink
      exact ⟨⟨written, hwritten⟩, hsinks⟩
    · intro hreturn
      obtain ⟨⟨written, hwritten⟩, hsinks⟩ := hreturn
      exact ⟨(), Run.bind_eq_ok.mpr ⟨written, hwritten, rfl⟩, hsinks⟩

end UniServer.Logging
