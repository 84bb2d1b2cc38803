/-
  Logging/FailedCalls.lean --- `Init(path)` and `Start(path)` that return false.

  Both install a new `LogManager` before they make the `ConfigWatcher`.  When the
  manager cannot be made nothing was changed, but a watcher that cannot be made
  leaves the new manager behind: what was installed before stays only when the
  document configures the very same.
-/
import UniServer.Logging.System

set_option autoImplicit false

namespace UniServer.Logging

open UniServer.Foundation UniServer.Common

/-- What a `LogSystem` has installed: the logger, its level, the flag, and the
watcher. -/
structure Installed where
  logger : Option Logger
  level : Log
  paused : Option Bool
  watcher : Option ConfigWatcher
  deriving DecidableEq, Repr

namespace LogSystem

def installed (s : LogSystem) : Installed where
  logger := s.lm.bind LogManager.logger
  level := s.getLevel
  paused := s.lm.map LogManager.paused
  watcher := s.cw

/-- Installing a manager changes nothing when it is the one that is there. -/
theorem installed_eq_iff (s : LogSystem) (m : LogManager) :
    installed { s with lm := some m } = installed s ↔ s.lm = some m := by
  constructor
  · intro h
    have hlogger : (some m).bind LogManager.logger = s.lm.bind LogManager.logger :=
      congrArg Installed.logger h
    have hpaused : (some m).map LogManager.paused = s.lm.map LogManager.paused :=
      congrArg Installed.paused h
    cases hlm : s.lm with
    | none =>
      rw [hlm] at hpaused
      cases hpaused
    | some m' =>
      rw [hlm] at hlogger hpaused
      exact congrArg
        some (LogManager.ext hlogger.symm (Option.some.inj hpaused).symm)
  · intro h
    cases s
    cases h
    rfl

variable (env : Environment) {path : Bytes} {doc : Document} {setup : Setup}

/-- How an operation that makes both objects fails. -/
theorem execute_eq_false {last : Action} {s s' : LogSystem}
    (hlast : ∀ t, perform env t last ≠ .ok none)
    (h : execute env [.newManager doc, .newWatcher path setup, last] s =
      .ok (false, s')) :
    (∃ e, LogManager.loads env doc = .error e) ∧ s' = s ∨
      (∃ b, LogManager.loads env doc = .ok b) ∧
        s' = { s with lm := some (LogManager.made env doc) } := by
  rw [execute, perform, LogManager.new_eq] at h
  cases hloads : LogManager.loads env doc with
  | error e =>
    simp only [hloads, Except.map, Except.ok.injEq, Prod.mk.injEq, true_and] at h
    exact Or.inl ⟨⟨e, rfl⟩, h.symm⟩
  | ok b =>
    refine Or.inr ⟨⟨b, rfl⟩, ?_⟩
    simp only [hloads, Except.map] at h
    rw [execute] at h
    split at h
    · cases h
    · simp only [Except.ok.injEq, Prod.mk.injEq, true_and] at h
      exact h.symm
    · rename_i t _
      rw [execute] at h
      split at h
      · cases h
      · rename_i hnone
        exact absurd hnone (hlast t)
      · simp [execute] at h

theorem perform_pause_ne (s : LogSystem) : perform env s .pause ≠ .ok none := by
  simp [perform]

theorem perform_startWatcher_ne (s : LogSystem) :
    perform env s .startWatcher ≠ .ok none := by
  rw [perform]
  cases s.cw.mapM ConfigWatcher.start <;> simp

/-- A call of `Init(path)` or `Start(path)` that returns false keeps what is
installed, in every reachable state, exactly when loading raised an exception or
the document makes the manager that was installed before. -/
theorem installed_of_failed_iff {events : List Event} {t : Session}
    (_ : Session.run env events = .ok t) {c : Call}
    (hc : c = .init path doc setup ∨ c = .startAt path doc setup) {s' : LogSystem}
    (hfails : execute env c.actions t.system = .ok (false, s')) :
    s'.installed = t.system.installed ↔
      (∃ e, LogManager.loads env doc = .error e) ∨
        t.system.lm = some (LogManager.made env doc) := by
  have hends : (∃ e, LogManager.loads env doc = .error e) ∧ s' = t.system ∨
      (∃ b, LogManager.loads env doc = .ok b) ∧
        s' = { t.system with lm := some (LogManager.made env doc) } := by
    rcases hc with rfl | rfl
    · exact execute_eq_false env (perform_pause_ne env) hfails
    · exact execute_eq_false env (perform_startWatcher_ne env) hfails
  rcases hends with ⟨hraised, rfl⟩ | ⟨⟨b, hloads⟩, rfl⟩
  · simp [hraised]
  · rw [installed_eq_iff]
    simp [hloads]

/-! ## A path without a file -/

/-- A document whose `enabled` is no `bool`. -/
def unreadableKeys : List (Bytes × Yaml) :=
  (ascii "enabled", text "maybe") :: plainKeys

/-- `Init(path)` raises while it loads. -/
theorem installed_of_failed_unreadable :
    started.installed = started.installed ↔
      (∃ e, LogManager.loads plainEnvironment (documentOf unreadableKeys) =
        .error e) ∨
        started.lm =
          some (LogManager.made plainEnvironment (documentOf unreadableKeys)) := by
  refine installed_of_failed_iff plainEnvironment Session.run_startedEvents
    (c := .init (ascii "log.yml") (documentOf unreadableKeys) .ready)
      (Or.inl rfl) ?_
  decide +kernel

/-- `Init` with the path of no file returns false, and the logger is gone. -/
theorem installed_of_failed_notFound :
    ∃ t s', Session.run plainEnvironment Session.startedEvents = .ok t ∧
      execute plainEnvironment
        (Call.init (ascii "none.yml") none .notFound).actions t.system =
          .ok (false, s') ∧
      s'.installed ≠ t.system.installed := by
  refine ⟨_, { started with lm := some LogManager.blank },
    Session.run_startedEvents, ?_, ?_⟩
  · decide +kernel
  · decide +kernel

end LogSystem

end UniServer.Logging
