/-
  Logging/Disabled.lean --- logging that a document has switched off.

  A manager has one flag for two reasons to be silent, the document and `Stop`.
  `Start()` takes the flag back whatever the reason was, and a document that says
  `enabled: true` takes it back before the rest of it is looked at.  These are the
  only ways in which logging that is switched off comes back, and only while the
  manager still holds the logger of an earlier document.
-/
import UniServer.Logging.System

set_option autoImplicit false

namespace UniServer.Logging

open UniServer.Foundation UniServer.Common

variable (env : Environment)

namespace LogSystem

/-- The installed manager has a logger. -/
def HoldsLogger (s : LogSystem) : Prop := ∃ m, s.lm = some m ∧ m.logger ≠ none

/-- What an action makes of the manager. -/
theorem lm_of_perform {s s' : LogSystem} {action : Action}
    (h : s.perform env action = .ok (some s')) :
    (∃ doc b, action = .newManager doc ∧ LogManager.loads env doc = .ok b ∧
        s'.lm = some (LogManager.made env doc)) ∨
      action = .pause ∧ s'.lm = s.lm.map LogManager.pause ∨
      action = .remain ∧
        s'.lm = (s.lm.map fun m => if m.paused then m.remain else m) ∨
      action ≠ .remain ∧ action.documents = [] ∧ s'.lm = s.lm := by
  cases action with
  | newManager doc =>
    rw [perform] at h
    split at h
    · cases h
    · rename_i m hnew
      obtain ⟨⟨b, hloads⟩, rfl⟩ := (LogManager.new_eq_ok_iff env).mp hnew
      cases h
      exact Or.inl ⟨doc, b, rfl, hloads, rfl⟩
  | newWatcher path setup =>
    refine Or.inr (Or.inr (Or.inr ⟨by simp, rfl, ?_⟩))
    rw [perform] at h
    split at h
    · cases h
    · cases h
    · cases h
      rfl
    · obtain ⟨_, _, hok⟩ := Run.bind_eq_ok.mp h
      cases hok
      rfl
  | linked =>
    refine Or.inr (Or.inr (Or.inr ⟨by simp, rfl, ?_⟩))
    rw [perform] at h
    split at h
    · cases h
      rfl
    · cases h
  | startWatcher =>
    refine Or.inr (Or.inr (Or.inr ⟨by simp, rfl, ?_⟩))
    rw [perform] at h
    obtain ⟨_, _, hok⟩ := Run.bind_eq_ok.mp h
    cases hok
    rfl
  | stopWatcher =>
    cases h
    exact Or.inr (Or.inr (Or.inr ⟨by simp, rfl, rfl⟩))
  | pause =>
    cases h
    exact Or.inr (Or.inl ⟨rfl, rfl⟩)
  | remain =>
    cases h
    exact Or.inr (Or.inr (Or.inl ⟨rfl, rfl⟩))

/-- An action that ends its operation while a document is loaded: loading
raised. -/
theorem loads_of_perform_eq_none {s : LogSystem} {doc : Document}
    (h : s.perform env (.newManager doc) = .ok none) :
    ∃ e, LogManager.loads env doc = .error e := by
  rw [perform, LogManager.new_eq] at h
  cases hloads : LogManager.loads env doc with
  | error e => exact ⟨e, rfl⟩
  | ok b => simp [hloads, Except.map] at h

theorem get_eq_none_of_logger {s : LogSystem} {m : LogManager} (hlm : s.lm = some m)
    (hlogger : m.logger = none) : s.get = none := by
  rw [get, hlm, Option.bind_some, LogManager.get, hlogger]
  exact ite_self none

/-- A manager that is not paused shows its logger. -/
theorem get_eq_none_iff_of_remained {s : LogSystem}
    (h : ∀ m, s.lm = some m → m.paused = false) :
    s.get = none ↔ ¬ s.HoldsLogger := by
  unfold get HoldsLogger
  cases hlm : s.lm with
  | none => simp
  | some m => simp [LogManager.get, h m hlm]

variable {env} {doc : Document}

theorem configures_eq_none (hloads : LogManager.loads env doc ≠ .ok true) :
    LogManager.configures env doc = none := by
  rw [Ne, LogManager.loads_eq_true_iff, Bool.not_eq_true,
    Option.isSome_eq_false_iff, Option.isNone_iff_eq_none] at hloads
  exact hloads

/-- A reload with `enabled: false` silences the system. -/
theorem get_reload_of_disabled
    (henabled : LogManager.enabledIn env doc = some false) (s : LogSystem) :
    (s.reload env doc).get = none := by
  unfold reload get
  cases s.lm with
  | none => rfl
  | some m => simp [LogManager.reload_eq, LogManager.pauses, henabled,
      LogManager.get]

/-- A reload that fails, without a word on `enabled`, changes nothing. -/
theorem get_reload_of_none (hloads : LogManager.loads env doc ≠ .ok true)
    (henabled : LogManager.enabledIn env doc = none) (s : LogSystem) :
    (s.reload env doc).get = s.get := by
  unfold reload get
  cases s.lm with
  | none => rfl
  | some m =>
    simp [LogManager.reload_eq, LogManager.pauses, henabled, LogManager.get,
      configures_eq_none hloads]

/-- A reload that fails behind `enabled: true` shows the logger that is held. -/
theorem get_reload_of_enabled (hloads : LogManager.loads env doc ≠ .ok true)
    (henabled : LogManager.enabledIn env doc = some true) (s : LogSystem) :
    (s.reload env doc).get = none ↔ ¬ s.HoldsLogger := by
  unfold reload get HoldsLogger
  cases s.lm with
  | none => simp
  | some m =>
    simp [LogManager.reload_eq, LogManager.pauses, henabled, LogManager.get,
      configures_eq_none hloads]

end LogSystem

/-! ## One event -/

/-- A loaded document has said `enabled: false`, and none that came after it was
loaded successfully. -/
def Disabled (docs : List Document) : Prop :=
  Machine.Since (fun d => LogManager.enabledIn env d = some false)
    (fun d => LogManager.loads env d = .ok true) docs

namespace Session

/-- Logging that is switched off yields nothing. -/
def Quiet (t : Session) : Prop := Disabled env t.loaded → t.system.get = none

/-- The event switches logging back on that a document has switched off: it is the
last action of `Start()`, or a document that says `enabled: true` without being
loaded successfully, while the manager still holds a logger. -/
def SwitchesOn (t : Session) : Event → Prop
  | .call _ => False
  | .proceed =>
      Disabled env t.loaded ∧ t.system.HoldsLogger ∧ t.todo.head? = some .remain
  | .reload doc =>
      Disabled env t.loaded ∧ t.system.HoldsLogger ∧ t.system.watching = true ∧
        LogManager.enabledIn env doc = some true ∧
        LogManager.loads env doc ≠ .ok true
  | .workerEnds => False

variable {env}

/-- A reload keeps the property unless it switches logging on. -/
theorem quiet_reload_iff {t : Session} {doc : Document} (ht : Quiet env t)
    (hwatching : t.system.watching = true) :
    Quiet env
        { t with system := t.system.reload env doc, loaded := t.loaded ++ [doc] } ↔
      ¬ SwitchesOn env t (.reload doc) := by
  unfold Quiet Disabled
  rw [Machine.since_snoc]
  cases henabled : LogManager.enabledIn env doc with
  | none =>
    have hon : ¬ SwitchesOn env t (.reload doc) := by
      rintro ⟨_, _, _, htrue, _⟩
      rw [henabled] at htrue
      cases htrue
    refine iff_of_true ?_ hon
    rintro (hfalse | ⟨hdisabled, hloads⟩)
    · cases hfalse
    · exact (LogSystem.get_reload_of_none hloads henabled t.system).trans
        (ht hdisabled)
  | some b =>
    cases b with
    | false =>
      have hon : ¬ SwitchesOn env t (.reload doc) := by
        rintro ⟨_, _, _, htrue, _⟩
        rw [henabled] at htrue
        cases htrue
      refine iff_of_true ?_ hon
      intro _
      exact LogSystem.get_reload_of_disabled henabled t.system
    | true =>
      constructor
      · rintro h ⟨hdisabled, hholds, _, _, hloads⟩
        have hget := h (Or.inr ⟨hdisabled, hloads⟩)
        exact (LogSystem.get_reload_of_enabled hloads henabled t.system).mp
          hget hholds
      · rintro hon (hfalse | ⟨hdisabled, hloads⟩)
        · cases hfalse
        · refine (LogSystem.get_reload_of_enabled hloads henabled t.system).mpr ?_
          intro hholds
          exact hon ⟨hdisabled, hholds, hwatching, henabled, hloads⟩

/-- The actions other than the last one of `Start()` do not switch logging on. -/
theorem not_switchesOn_of_ne {t : Session} {action : Action} {rest : List Action}
    (htodo : t.todo = action :: rest) (hne : action ≠ .remain) :
    ¬ SwitchesOn env t .proceed := by
  rintro ⟨_, _, hhead⟩
  rw [htodo, List.head?_cons, Option.some_inj] at hhead
  exact hne hhead

/-- An operation that ends early has loaded nothing that switches logging off. -/
theorem disabled_of_perform_eq_none {s : LogSystem} {action : Action}
    {docs : List Document} (hperform : s.perform env action = .ok none)
    (h : Disabled env (docs ++ action.documents)) : Disabled env docs := by
  rcases action.documents_eq_nil_or with hdocs | ⟨doc, rfl⟩
  · rwa [hdocs, List.append_nil] at h
  · obtain ⟨e, hraised⟩ := LogSystem.loads_of_perform_eq_none env hperform
    rcases Machine.since_snoc.mp h with hfalse | ⟨hdisabled, _⟩
    · rw [LogManager.loads_of_disabled env hfalse] at hraised
      cases hraised
    · exact hdisabled

/-- The last action of `Start()` shows the logger that is held. -/
theorem quiet_remain_iff {t : Session} {rest : List Action} {s' : LogSystem}
    (htodo : t.todo = .remain :: rest)
    (hlm : s'.lm = t.system.lm.map fun m => if m.paused then m.remain else m) :
    Quiet env { system := s', todo := rest, loaded := t.loaded } ↔
      ¬ SwitchesOn env t .proceed := by
  have hremained : ∀ m, s'.lm = some m → m.paused = false := by
    intro m hm
    rw [hlm] at hm
    obtain ⟨m', _, rfl⟩ := Option.map_eq_some_iff.mp hm
    cases hpaused : m'.paused <;> simp [hpaused, LogManager.remain]
  have hholds : s'.HoldsLogger ↔ t.system.HoldsLogger := by
    unfold LogSystem.HoldsLogger
    rw [hlm]
    cases t.system.lm with
    | none => simp
    | some m => cases hpaused : m.paused <;> simp [hpaused, LogManager.remain]
  unfold Quiet SwitchesOn
  simp only [LogSystem.get_eq_none_iff_of_remained hremained, hholds, htodo,
    List.head?_cons, and_true, not_and]

/-- Any action keeps the property unless it switches logging on. -/
theorem quiet_perform_iff {t : Session} {action : Action} {rest : List Action}
    {s' : LogSystem} (ht : Quiet env t) (htodo : t.todo = action :: rest)
    (hperform : t.system.perform env action = .ok (some s')) :
    Quiet env
        { system := s', todo := rest, loaded := t.loaded ++ action.documents } ↔
      ¬ SwitchesOn env t .proceed := by
  rcases LogSystem.lm_of_perform env hperform with
    ⟨doc, b, rfl, hloads, hlm⟩ | ⟨rfl, hlm⟩ | ⟨rfl, hlm⟩ | ⟨hne, hdocs, hlm⟩
  · refine iff_of_true ?_ (not_switchesOn_of_ne htodo (by simp))
    intro hdisabled
    apply LogSystem.get_eq_none_of_logger hlm
    rcases Machine.since_snoc.mp hdisabled with hfalse | ⟨_, hfailed⟩
    · exact LogManager.configures_of_disabled env hfalse
    · exact LogSystem.configures_eq_none hfailed
  · refine iff_of_true ?_ (not_switchesOn_of_ne htodo (by simp))
    intro _
    show s'.get = none
    unfold LogSystem.get
    rw [hlm]
    cases t.system.lm with
    | none => rfl
    | some m => simp [LogManager.pause, LogManager.get]
  · show Quiet env { system := s', todo := rest, loaded := t.loaded ++ [] } ↔ _
    rw [List.append_nil]
    exact quiet_remain_iff htodo hlm
  · refine iff_of_true ?_ (not_switchesOn_of_ne htodo hne)
    intro hdisabled
    rw [hdocs, List.append_nil] at hdisabled
    have hget : s'.get = t.system.get := by
      rw [LogSystem.get, LogSystem.get, hlm]
    exact hget.trans (ht hdisabled)

/-- One event. -/
theorem quiet_step_iff (t : Session) (e : Event) (t' : Session) (ht : Quiet env t)
    (hstep : step env t e = .ok t') : Quiet env t' ↔ ¬ SwitchesOn env t e := by
  cases e with
  | call c =>
    cases hstep
    refine iff_of_true ?_ id
    split
    · exact ht
    · exact ht
  | workerEnds =>
    cases hstep
    exact iff_of_true ht id
  | reload doc =>
    cases hstep
    cases hwatching : t.system.watching with
    | true => exact quiet_reload_iff ht hwatching
    | false =>
      apply iff_of_true ht
      rintro ⟨_, _, hwatches, _⟩
      rw [hwatching] at hwatches
      cases hwatches
  | proceed =>
    rw [step] at hstep
    cases htodo : t.todo with
    | nil =>
      simp only [htodo, Except.ok.injEq] at hstep
      rw [← hstep]
      apply iff_of_true ht
      rintro ⟨_, _, hhead⟩
      rw [htodo] at hhead
      cases hhead
    | cons action rest =>
      simp only [htodo] at hstep
      cases hperform : t.system.perform env action with
      | error a => simp [hperform] at hstep
      | ok next =>
        cases next with
        | none =>
          simp only [hperform, Except.ok.injEq] at hstep
          rw [← hstep]
          have hne : action ≠ .remain := by
            rintro rfl
            cases hperform
          refine iff_of_true ?_ (not_switchesOn_of_ne htodo hne)
          intro hdisabled
          exact ht (disabled_of_perform_eq_none hperform hdisabled)
        | some s' =>
          simp only [hperform, Except.ok.injEq] at hstep
          rw [← hstep]
          exact quiet_perform_iff ht htodo hperform

/-! ## Whole runs -/

variable (env)

theorem quiet_blank : Quiet env blank := by
  intro hdisabled
  exact absurd hdisabled Machine.not_since_nil

/-- In every run, with operations and reloads in any order: from a document that
says `enabled: false` until one that is loaded successfully `Get` yields nothing
in every state, exactly when no event of the run switches logging on meanwhile. -/
theorem quiet_along_iff {events : List Event} {t : Session}
    (hrun : run env events = .ok t) :
    Machine.Along (step env) (Quiet env) blank events ↔
      Machine.Each (step env) (fun t e => ¬ SwitchesOn env t e) blank events :=
  Machine.along_iff_each (step env) quiet_step_iff (quiet_blank env) hrun

/-- A started system whose document is changed to `enabled: false`. -/
def disabledEvents : List Event :=
  startedEvents ++ [.reload (documentOf disabledKeys)]

theorem quiet_along_disabledEvents :
    Machine.Along (step plainEnvironment) (Quiet plainEnvironment) blank
        disabledEvents ↔
      Machine.Each (step plainEnvironment)
        (fun t e => ¬ SwitchesOn plainEnvironment t e) blank disabledEvents :=
  quiet_along_iff plainEnvironment
    (t := { system := { LogSystem.started with
              lm := some
                { logger := some { level := .info, sinks := [] },
                  paused := true } },
            todo := [],
            loaded := [documentOf enabledKeys, documentOf disabledKeys] }) rfl

/-- The same, stopped and started again. -/
def restartedEvents : List Event :=
  disabledEvents ++ [.call .stop, .proceed, .proceed, .proceed] ++
    [.call .start, .proceed, .proceed, .proceed]

/-- The document still says `enabled: false`, and `Get` yields the logger of the
one before. -/
theorem get_restarted :
    ∃ t, run plainEnvironment restartedEvents = .ok t ∧
      Disabled plainEnvironment t.loaded ∧
      t.system.get = some { level := .info, sinks := [] } := by
  refine ⟨{ system := .started, todo := [],
            loaded :=
              [documentOf enabledKeys, documentOf disabledKeys] }, rfl, ?_, rfl⟩
  refine ⟨[documentOf enabledKeys], documentOf disabledKeys, [], rfl, ?_, by simp⟩
  decide +kernel

end Session

end UniServer.Logging
