/-
  Logging/Invalid.lean --- documents that `Init` rejects as invalid.

  A document can be used when its section `logging`, the level and the sinks are
  there, of the right kind, and every value in them converts (`Usable`).  `Init`
  rejects a document that cannot be used, and one that says `enabled: false`; only
  the first kind is invalid.

  The logger is written at the very end, when nothing can fail any more.  The flag
  is written as soon as `enabled` is read, before the rest of the document is
  looked at.
-/
import UniServer.Logging.Reload

set_option autoImplicit false

namespace UniServer.Logging

open UniServer.Foundation UniServer.Common

namespace LogManager

variable (env : Environment)

/-- The level is one of the known names, and every sink can be made or passed
over. -/
def SettingsUsable (logging : List (Yaml × Yaml)) : Prop :=
  ∃ level sinks created,
    Yaml.entry (ascii "level") logging = some (.scalar level) ∧
    toLog level ≠ .unknown ∧
    Yaml.entry (ascii "sinks") logging = some (.sequence sinks) ∧
    createSinks env sinks = .ok created

/-- The key `enabled` is missing, or its value converts. -/
def EnabledUsable (logging : List (Yaml × Yaml)) : Prop :=
  ∀ value, Yaml.entry (ascii "enabled") logging = some value →
    ∃ text b, value = .scalar text ∧ env.asBool text = some b

/-- The document can be loaded, and has everything that a logger needs. -/
def Usable (doc : Document) : Prop :=
  ∃ config logging, doc = some config ∧
    config.subscript (ascii "logging") = .ok (some (.map logging)) ∧
    EnabledUsable env logging ∧ SettingsUsable env logging

/-- The document is invalid, and does not say `enabled: false`. -/
def Rejected (doc : Document) : Prop :=
  ¬ Usable env doc ∧ enabledIn env doc ≠ some false

theorem parseSettings_eq_some_iff (logging : List (Yaml × Yaml)) :
    (∃ config, parseSettings env logging = .ok (some config)) ↔
      SettingsUsable env logging := by
  constructor
  · intro hparsed
    obtain ⟨config, h⟩ := hparsed
    unfold parseSettings at h
    split at h
    · rename_i level sinks hlevel hsinks
      split at h
      · cases h
      · rename_i hknown
        cases hcreated : createSinks env sinks with
        | ok created =>
            exact ⟨level, sinks, created, hlevel, hknown, hsinks, hcreated⟩
        | error e =>
          rw [hcreated] at h
          cases h
    · cases h
  · intro husable
    obtain ⟨level, sinks, created, hlevel, hknown, hsinks, hcreated⟩ := husable
    refine ⟨{ level := toLog level, sinks := created }, ?_⟩
    simp only [parseSettings, hlevel, hsinks, if_neg hknown, hcreated]
    rfl

/-- What `Init` comes to behind the key `enabled`. -/
theorem parsed_eq_some_iff {config : Yaml} {logging : List (Yaml × Yaml)}
    (hlogging : config.subscript (ascii "logging") = .ok (some (.map logging)))
    (henabled : enabledIn env (some config) ≠ some false) :
    (∃ c, parsed env (some config) = .ok (some c)) ↔
      EnabledUsable env logging ∧ SettingsUsable env logging := by
  cases config with
  | null => cases hlogging
  | scalar text => cases hlogging
  | sequence items => cases hlogging
  | map entries =>
    have hentry : Yaml.entry (ascii "logging") entries = some (.map logging) :=
      Except.ok.inj hlogging
    rw [← parseSettings_eq_some_iff]
    unfold parsed parseLogConfig EnabledUsable
    unfold enabledIn at henabled
    simp only [hlogging]
    simp only [hentry] at henabled
    cases hvalue : Yaml.entry (ascii "enabled") logging with
    | none => simp
    | some value =>
      cases value with
      | null => simp
      | sequence items => simp
      | map entries => simp
      | scalar text =>
        simp only [hvalue] at henabled
        cases hbool : env.asBool text with
        | none => simp [hbool]
        | some b =>
          cases b with
          | true => simp [hbool]
          | false => exact absurd hbool henabled

/-- `Init` returns true on the documents that can be used and do not say
`enabled: false`. -/
theorem loads_eq_true_iff_usable (doc : Document) :
    loads env doc = .ok true ↔
      Usable env doc ∧ enabledIn env doc ≠ some false := by
  have hsome : loads env doc = .ok true ↔ ∃ c, parsed env doc = .ok (some c) := by
    unfold loads
    cases parsed env doc with
    | error e => simp
    | ok config => cases config <;> simp
  rw [hsome]
  constructor
  · intro hsome
    obtain ⟨c, hparsed⟩ := hsome
    have henabled : enabledIn env doc ≠ some false := by
      intro hfalse
      rw [parsed_of_disabled env hfalse] at hparsed
      cases hparsed
    refine ⟨?_, henabled⟩
    cases doc with
    | none => cases hparsed
    | some config =>
      cases hlogging : config.subscript (ascii "logging") with
      | error e => simp [parsed, parseLogConfig, hlogging] at hparsed
      | ok found =>
        cases found with
        | none => simp [parsed, parseLogConfig, hlogging] at hparsed
        | some node =>
          cases node with
          | map logging =>
            exact ⟨config, logging, rfl, hlogging,
              (parsed_eq_some_iff env hlogging henabled).mp ⟨c, hparsed⟩⟩
          | null => simp [parsed, parseLogConfig, hlogging] at hparsed
          | scalar text => simp [parsed, parseLogConfig, hlogging] at hparsed
          | sequence items => simp [parsed, parseLogConfig, hlogging] at hparsed
  · intro h
    obtain ⟨⟨config, logging, rfl, hlogging, husable⟩, henabled⟩ := h
    exact (parsed_eq_some_iff env hlogging henabled).mpr husable

/-- An invalid document configures no logger. -/
theorem configures_of_rejected {doc : Document} (h : Rejected env doc) :
    configures env doc = none := by
  have hfails : ¬ (configures env doc).isSome := by
    rw [← loads_eq_true_iff, loads_eq_true_iff_usable]
    exact fun hloads => h.1 hloads.1
  simpa using hfails

/-- On an invalid document `Init` leaves the logger and the flag as they were
exactly when the document does not say `enabled: true`, or the manager was not
paused. -/
theorem init_of_rejected_iff {doc : Document} (h : Rejected env doc)
    (m : LogManager) :
    (init env doc m).2 = m ↔
      (enabledIn env doc = some true → m.paused = false) := by
  rw [init_eq, configures_of_rejected env h, Option.none_or]
  unfold pauses
  have hwritten :
      LogManager.mk m.logger (((enabledIn env doc).map (!·)).getD m.paused) = m ↔
        ((enabledIn env doc).map (!·)).getD m.paused = m.paused := by
    constructor
    · exact congrArg LogManager.paused
    · intro hflag
      exact LogManager.ext rfl hflag
  rw [hwritten]
  cases henabled : enabledIn env doc with
  | none => simp
  | some b =>
    cases b with
    | true =>
      constructor
      · intro hflag _
        exact hflag.symm
      · intro hrunning
        exact (hrunning rfl).symm
    | false => exact absurd henabled h.2

/-- `enabled: true` and nothing else. -/
def bareEnabled : Document := documentOf [(ascii "enabled", text "true")]

theorem rejected_bareEnabled : Rejected plainEnvironment bareEnabled := by
  have hfalse : loads plainEnvironment bareEnabled = .ok false := by decide +kernel
  have henabled : enabledIn plainEnvironment bareEnabled = some true := by
    decide +kernel
  refine ⟨?_, by rw [henabled]; decide⟩
  intro husable
  have htrue := (loads_eq_true_iff_usable plainEnvironment bareEnabled).mpr
    ⟨husable, by rw [henabled]; decide⟩
  rw [hfalse] at htrue
  cases htrue

/-- The document comes to a manager that logs. -/
theorem init_of_rejected_blank :
    (init plainEnvironment bareEnabled blank).2 = blank ↔
      (enabledIn plainEnvironment bareEnabled = some true →
        blank.paused = false) :=
  init_of_rejected_iff plainEnvironment rejected_bareEnabled blank

/-- It comes to a manager that is paused, and logging is back. -/
theorem rejected_document_resumes :
    ∃ m doc, Rejected plainEnvironment doc ∧
      (init plainEnvironment doc m).1 = .ok false ∧
      (init plainEnvironment doc m).2 ≠ m := by
  refine ⟨blank.pause, bareEnabled, rejected_bareEnabled, ?_, ?_⟩
  · decide +kernel
  · decide +kernel

end LogManager

end UniServer.Logging
