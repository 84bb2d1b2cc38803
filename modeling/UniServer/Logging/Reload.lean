/-
  Logging/Reload.lean --- a `LogManager` after a history of documents.

  The flag of a manager is a register: what it holds is what the last document
  with a readable `logging.enabled` said.  A document that is loaded successfully
  replaces the logger, and writes the flag only when it has the key, so that a
  document without the key gives the manager of a fresh start unless the history
  has left logging switched off.
-/
import UniServer.Foundation.Register
import UniServer.Logging.Manager

set_option autoImplicit false

namespace UniServer.Logging

open UniServer.Foundation UniServer.Common

namespace LogManager

variable (env : Environment)

/-- The manager that `Init` leaves. -/
def reload (m : LogManager) (doc : Document) : LogManager := (init env doc m).2

/-- The manager after `Init` on these documents, also where `Init` raises. -/
def reloads (m : LogManager) (docs : List Document) : LogManager :=
  docs.foldl (reload env) m

/-- What a manager shows: whether `Get` yields a logger, the level, and the
sinks. -/
structure View where
  logs : Bool
  level : Log
  sinks : Option (List Sink)
  deriving DecidableEq, Repr

def view (m : LogManager) : View where
  logs := m.get.isSome
  level := m.getLevel
  sinks := m.logger.map Logger.sinks

theorem reload_eq (m : LogManager) (doc : Document) :
    reload env m doc =
      { logger := (configures env doc).or m.logger,
        paused := (pauses env doc).getD m.paused } := by
  rw [reload, init_eq]

/-- The last readable `logging.enabled` of a history. -/
def lastEnabled (docs : List Document) : Option Bool :=
  Register.lastWrite (enabledIn env) docs

/-- The flag of a manager is what its history of documents says. -/
theorem paused_reloads {first : Document} {m : LogManager}
    (hnew : new env first = .ok m) (docs : List Document) :
    (reloads env m docs).paused =
      decide (lastEnabled env (first :: docs) = some false) := by
  have hm : m.paused = (pauses env first).getD false :=
    congrArg LogManager.paused ((new_eq_ok_iff env).mp hnew).2
  have hrun : (reloads env m docs).paused =
      (Register.lastWrite (pauses env) docs).getD m.paused := by
    refine Register.read_foldl LogManager.paused (reload env) (pauses env) ?_ docs m
    intro m' doc
    rw [reload_eq]
  have hlast : Register.lastWrite (pauses env) (first :: docs) =
      (lastEnabled env (first :: docs)).map (!·) :=
    Register.lastWrite_map (enabledIn env) (!·) (first :: docs)
  have hall : (reloads env m docs).paused =
      (Register.lastWrite (pauses env) (first :: docs)).getD false := by
    rw [hrun, hm, Register.lastWrite_cons]
    cases Register.lastWrite (pauses env) docs <;> rfl
  rw [hall, hlast]
  cases lastEnabled env (first :: docs) with
  | none => rfl
  | some b => cases b <;> rfl

/-- Two managers with one logger show the same when they have one flag. -/
theorem view_eq_iff {logger : Logger} {p q : Bool} :
    view { logger := some logger, paused := p } =
        view { logger := some logger, paused := q } ↔ p = q := by
  cases p <;> cases q <;> simp [view, get]

/-- A document that is loaded successfully makes of a manager what a fresh start
with it makes, exactly when the document says `enabled: true` or the documents
before it did not leave logging switched off. -/
theorem view_reload_eq_view_new_iff {first d : Document} {docs : List Document}
    {m : LogManager} (hnew : new env first = .ok m)
    (hloads : (init env d (reloads env m docs)).1 = .ok true) :
    ∃ fresh, new env d = .ok fresh ∧
      ((reload env (reloads env m docs) d).view = fresh.view ↔
        enabledIn env d = some true ∨
          lastEnabled env (first :: docs) ≠ some false) := by
  rw [init_eq] at hloads
  have hd : loads env d = .ok true := hloads
  obtain ⟨logger, hlogger⟩ := Option.isSome_iff_exists.mp
    ((loads_eq_true_iff env).mp hd)
  have hmade : made env d =
      { logger := some logger, paused := (pauses env d).getD false } := by
    rw [made, hlogger]
  refine ⟨made env d, (new_eq_ok_iff env).mpr ⟨⟨true, hd⟩, rfl⟩, ?_⟩
  rw [hmade, reload_eq, hlogger, Option.some_or, view_eq_iff,
      paused_reloads env hnew]
  unfold pauses
  cases henabled : enabledIn env d with
  | none => simp
  | some b =>
    cases b with
    | true => simp
    | false =>
      rw [configures_of_disabled env henabled] at hlogger
      cases hlogger

end LogManager

/-! ## A key that was taken out -/

/-- An environment in which every file opens, and only `true` and `false` are
values of type `bool`. -/
def plainEnvironment : Environment where
  asBool text :=
    if text = ascii "true" then some true
    else if text = ascii "false" then some false
    else none
  opens _ := true

/-- A document with these keys under `logging`. -/
def documentOf (keys : List (Bytes × Yaml)) : Document :=
  some (.map [(.scalar (ascii "logging"),
    .map (keys.map fun key => (.scalar key.1, key.2)))])

/-- A scalar. -/
def text (s : String) : Yaml := .scalar (ascii s)

/-- `level: info` and no sinks. -/
def plainKeys : List (Bytes × Yaml) :=
  [(ascii "level", text "info"), (ascii "sinks", .sequence [])]

/-- The same behind `enabled: false`. -/
def disabledKeys : List (Bytes × Yaml) :=
  (ascii "enabled", text "false") :: plainKeys

/-- The same behind `enabled: true`. -/
def enabledKeys : List (Bytes × Yaml) := (ascii "enabled", text "true") :: plainKeys

namespace LogManager

/-- Logging that was switched on again by the document. -/
theorem view_reload_eq_view_new_enabled :
    ∃ m fresh, new plainEnvironment (documentOf disabledKeys) = .ok m ∧
      new plainEnvironment (documentOf enabledKeys) = .ok fresh ∧
      ((reload plainEnvironment m (documentOf enabledKeys)).view = fresh.view ↔
        enabledIn plainEnvironment (documentOf enabledKeys) = some true ∨
          lastEnabled plainEnvironment [documentOf disabledKeys] ≠ some false) := by
  have hnew : new plainEnvironment (documentOf disabledKeys) =
      .ok { logger := none, paused := true } := by
    decide +kernel
  have hloads : (init plainEnvironment (documentOf enabledKeys)
      (reloads plainEnvironment { logger := none, paused := true } [])).1 =
        .ok true := by
    decide +kernel
  obtain ⟨fresh, hfresh, hiff⟩ :=
    view_reload_eq_view_new_iff plainEnvironment hnew hloads
  exact ⟨_, fresh, hnew, hfresh, hiff⟩

/-- `enabled: false` is taken out of the document: it is loaded successfully, and
`Get` yields nothing. -/
theorem view_reload_ne_view_new :
    ∃ m fresh, new plainEnvironment (documentOf disabledKeys) = .ok m ∧
      (init plainEnvironment (documentOf plainKeys) m).1 = .ok true ∧
      new plainEnvironment (documentOf plainKeys) = .ok fresh ∧
      (reload plainEnvironment m (documentOf plainKeys)).view ≠ fresh.view := by
  refine ⟨{ logger := none, paused := true },
    { logger := some { level := .info, sinks := [] }, paused := false }, ?_⟩
  decide +kernel

end LogManager

end UniServer.Logging
