/-
  Logging/Manager.lean --- `LogManager` and the configuration documents it loads.

  `yaml-cpp` and the file system are outside the sources.  A document is what
  `YAML::LoadFile` gives; whether a scalar converts to `bool`, and whether the
  file of a sink can be opened, are taken from the `Environment`.  Every exception
  of `yaml-cpp` is a `std::runtime_error`.

  `Init` validates and updates in one pass.  What it amounts to is `init_eq`: each
  document writes, or leaves alone, the two registers that a manager consists of,
  its logger and its flag.

  Opening the file of a sink is not followed further, and system messages are left
  out.
-/
import UniServer.Common.Status

set_option autoImplicit false

namespace UniServer.Logging

open UniServer.Foundation UniServer.Common

/-! ## Documents -/

/-- A `YAML::Node`. -/
inductive Yaml where
  | null
  | scalar (text : Bytes)
  | sequence (items : List Yaml)
  | map (entries : List (Yaml × Yaml))

/-- The exceptions that reading a node can raise. -/
inductive YamlError where
  /-- `YAML::BadSubscript`: `operator[]` on a scalar -/
  | badSubscript
  /-- `YAML::TypedBadConversion` -/
  | badConversion
  deriving DecidableEq, Repr

namespace Yaml

/-- `operator[]` of a map: keys that are not scalars match no text. -/
def entry (key : Bytes) : List (Yaml × Yaml) → Option Yaml
  | [] => none
  | (.scalar text, value) :: entries =>
      if text = key then some value else entry key entries
  | _ :: entries => entry key entries

/-- `operator[]` of any node; `none` is a node that is not defined. -/
def subscript (key : Bytes) : Yaml → Except YamlError (Option Yaml)
  | .map entries => .ok (entry key entries)
  | .scalar _ => .error .badSubscript
  | .sequence _ => .ok none
  | .null => .ok none

end Yaml

/-- What `YAML::LoadFile` gives; `none` when it throws. -/
abbrev Document : Type := Option Yaml

/-- What the sources take from outside. -/
structure Environment where
  /-- `as<bool>()` of a scalar; `none` when it throws -/
  asBool : Bytes → Option Bool
  /-- the file of a `FileSink` with this path can be opened -/
  opens : Bytes → Bool

/-! ## Sinks -/

/-- The functions that `FormatIs` knows. -/
inductive Format where
  /-- `ConsoleFormat` -/
  | console
  /-- `JsonFormat` -/
  | json
  deriving DecidableEq, Repr

/-- `FormatIs`. -/
def formatIs (name : Bytes) : Option Format :=
  if name = ascii "console" then some .console
  else if name = ascii "json" then some .json
  else none

/-- `ISink`. -/
inductive Sink where
  /-- `ConsoleSink` -/
  | console (format : Format)
  /-- `FileSink` -/
  | file (path : Bytes) (format : Format)
  deriving DecidableEq, Repr

/-- `ConsoleSink::create`. -/
def ConsoleSink.create (config : List (Yaml × Yaml)) : Option Sink :=
  match Yaml.entry (ascii "format") config with
  | some (.scalar format) => (formatIs format).map Sink.console
  | _ => none

variable (env : Environment)

/-- `FileSink::create`. -/
def FileSink.create (config : List (Yaml × Yaml)) : Option Sink :=
  match Yaml.entry (ascii "format") config, Yaml.entry (ascii "path") config with
  | some (.scalar format), some (.scalar path) =>
      match formatIs format with
      | none => none
      | some format => if env.opens path then some (.file path format) else none
  | _, _ => none

/-- `CreateSink`. -/
def createSink : Yaml → Except YamlError (Option Sink)
  | .map [(.scalar name, .map settings)] =>
      match Yaml.entry (ascii "enabled") settings with
      | some (.scalar enabled) =>
          match env.asBool enabled with
          | none => .error .badConversion
          | some false => .ok none
          | some true =>
              if name = ascii "console" then .ok (ConsoleSink.create settings)
              else if name = ascii "file" then .ok (FileSink.create env settings)
              else .ok none
      | _ => .ok none
  | _ => .ok none

/-- The loop over `sinks`: an entry that gives no sink is passed over. -/
def createSinks : List Yaml → Except YamlError (List Sink)
  | [] => .ok []
  | sink :: rest => do
      let created ← createSink env sink
      let sinks ← createSinks rest
      return created.toList ++ sinks

/-! ## The manager -/

/-- `LogConfig`. -/
structure LogConfig where
  level : Log
  sinks : List Sink
  deriving DecidableEq, Repr

/-- `Logger`. -/
structure Logger where
  level : Log
  sinks : List Sink
  deriving DecidableEq, Repr

/-- `Logger::Logger`. -/
def Logger.new (config : LogConfig) : Logger where
  level := config.level
  sinks := config.sinks

/-- `LogManager`. -/
@[ext] structure LogManager where
  logger : Option Logger
  paused : Bool
  deriving DecidableEq, Repr

namespace LogManager

/-- The members as the constructor initialises them. -/
def blank : LogManager where
  logger := none
  paused := false

/-- `LogManager::Pause`. -/
def pause (m : LogManager) : LogManager := { m with paused := true }

/-- `LogManager::Remain`. -/
def remain (m : LogManager) : LogManager := { m with paused := false }

/-- `LogManager::Get`. -/
def get (m : LogManager) : Option Logger := if m.paused then none else m.logger

/-- `LogManager::GetLevel`. -/
def getLevel (m : LogManager) : Log :=
  match m.logger with
  | none => .unknown
  | some logger => logger.level

/-- The part of `ParseLogConfig` behind the key `enabled`. -/
def parseSettings (logging : List (Yaml × Yaml)) :
    Except YamlError (Option LogConfig) :=
  match Yaml.entry (ascii "level") logging, Yaml.entry (ascii "sinks") logging with
  | some (.scalar level), some (.sequence sinks) =>
      if toLog level = .unknown then .ok none
      else do
        let created ← createSinks env sinks
        return some { level := toLog level, sinks := created }
  | _, _ => .ok none

/-- `LogManager::ParseLogConfig`: what it returns, or raises, and the manager it
leaves. -/
def parseLogConfig (doc : Document) (m : LogManager) :
    Except YamlError (Option LogConfig) × LogManager :=
  match doc with
  | none => (.ok none, m)
  | some config =>
      match config.subscript (ascii "logging") with
      | .error e => (.error e, m)
      | .ok (some (.map logging)) =>
          match Yaml.entry (ascii "enabled") logging with
          | none => (parseSettings env logging, m)
          | some (.scalar enabled) =>
              match env.asBool enabled with
              | none => (.error .badConversion, m)
              | some false => (.ok none, m.pause)
              | some true => (parseSettings env logging, m.remain)
          | some _ => (.ok none, m)
      | .ok _ => (.ok none, m)

/-- `LogManager::Init`. -/
def init (doc : Document) (m : LogManager) : Except YamlError Bool × LogManager :=
  match parseLogConfig env doc m with
  | (.error e, after) => (.error e, after)
  | (.ok none, after) => (.ok false, after)
  | (.ok (some config), after) =>
      (.ok true, { after with logger := some (Logger.new config) })

/-- `LogManager::LogManager`: what `Init` returns is ignored, what it raises is
not. -/
def new (doc : Document) : Except YamlError LogManager :=
  match init env doc blank with
  | (.error e, _) => .error e
  | (.ok _, m) => .ok m

/-! ## What a document does to a manager -/

/-- The value of `logging.enabled`, where the document has one that can be
read. -/
def enabledIn (doc : Document) : Option Bool :=
  match doc with
  | some (.map config) =>
      match Yaml.entry (ascii "logging") config with
      | some (.map logging) =>
          match Yaml.entry (ascii "enabled") logging with
          | some (.scalar enabled) => env.asBool enabled
          | _ => none
      | _ => none
  | _ => none

/-- What `ParseLogConfig` comes to on a document. -/
def parsed (doc : Document) : Except YamlError (Option LogConfig) :=
  (parseLogConfig env doc blank).1

/-- What `Init` comes to on a document. -/
def loads (doc : Document) : Except YamlError Bool :=
  match parsed env doc with
  | .error e => .error e
  | .ok config => .ok config.isSome

/-- The logger that a document configures. -/
def configures (doc : Document) : Option Logger :=
  match parsed env doc with
  | .ok (some config) => some (Logger.new config)
  | _ => none

/-- The value that a document gives the flag. -/
def pauses (doc : Document) : Option Bool := (enabledIn env doc).map (!·)

/-- The manager that a document makes. -/
def made (doc : Document) : LogManager where
  logger := configures env doc
  paused := (pauses env doc).getD false

/-- The result of `ParseLogConfig` is a matter of the document alone, and all it
does to a manager is to write the flag. -/
theorem parseLogConfig_eq (doc : Document) (m : LogManager) :
    parseLogConfig env doc m =
      (parsed env doc, { m with paused := (pauses env doc).getD m.paused }) := by
  cases doc with
  | none => rfl
  | some config =>
    cases config with
    | null => rfl
    | scalar text => rfl
    | sequence items => rfl
    | map entries =>
      unfold parsed pauses enabledIn parseLogConfig
      simp only [Yaml.subscript]
      cases Yaml.entry (ascii "logging") entries with
      | none => rfl
      | some logging =>
        cases logging with
        | null => rfl
        | scalar text => rfl
        | sequence items => rfl
        | map settings =>
          dsimp only
          cases Yaml.entry (ascii "enabled") settings with
          | none => rfl
          | some enabled =>
            cases enabled with
            | null => rfl
            | sequence items => rfl
            | map entries => rfl
            | scalar text =>
              cases henabled : env.asBool text with
              | none => simp [henabled]
              | some b => cases b <;> simp [henabled, pause, remain]

/-- A document that says `enabled: false` is read no further. -/
theorem parsed_of_disabled {doc : Document} (h : enabledIn env doc = some false) :
    parsed env doc = .ok none := by
  unfold enabledIn at h
  split at h
  · rename_i config
    split at h
    · rename_i logging hlogging
      split at h
      · rename_i enabled henabled
        simp only [parsed, parseLogConfig, Yaml.subscript, hlogging, henabled, h]
      · cases h
    · cases h
  · cases h

/-- `Init` writes two registers. -/
theorem init_eq (doc : Document) (m : LogManager) :
    init env doc m =
      (loads env doc,
        { logger := (configures env doc).or m.logger,
          paused := (pauses env doc).getD m.paused }) := by
  unfold init loads configures
  rw [parseLogConfig_eq]
  cases parsed env doc with
  | error e => rfl
  | ok config => cases config <;> rfl

theorem loads_eq_true_iff {doc : Document} :
    loads env doc = .ok true ↔ (configures env doc).isSome := by
  unfold loads configures
  cases parsed env doc with
  | error e => simp
  | ok config => cases config <;> simp

theorem configures_of_disabled {doc : Document}
    (h : enabledIn env doc = some false) :
    configures env doc = none := by
  rw [configures, parsed_of_disabled env h]

theorem loads_of_disabled {doc : Document} (h : enabledIn env doc = some false) :
    loads env doc = .ok false := by
  rw [loads, parsed_of_disabled env h]
  rfl

/-- A manager is made by every document whose loading does not raise. -/
theorem new_eq (doc : Document) :
    new env doc = (loads env doc).map fun _ => made env doc := by
  unfold new made
  rw [init_eq]
  cases loads env doc with
  | error e => rfl
  | ok b =>
    simp only [blank, Option.or_none]
    rfl

theorem new_eq_ok_iff {doc : Document} {m : LogManager} :
    new env doc = .ok m ↔ (∃ b, loads env doc = .ok b) ∧ m = made env doc := by
  rw [new_eq]
  cases loads env doc with
  | error e => simp [Except.map]
  | ok b => simp [Except.map, eq_comm]

end LogManager

end UniServer.Logging
