/-
  Logging/Joinable.lean --- the thread of the watcher.

  A `std::thread` that is joinable must not be assigned to, nor destroyed; it stays
  joinable until it is joined, also behind a function that has returned.  In every
  reachable state the thread of a watcher is joinable exactly while the watcher is
  started, so that the destructor, which calls `Stop`, always finds it joined.
  `Start` does not look at the flag: it is safe exactly on a watcher that is not
  started.
-/
import UniServer.Logging.System

set_option autoImplicit false

namespace UniServer.Logging

open UniServer.Foundation UniServer.Common

namespace ConfigWatcher

/-- The thread is joinable exactly while the flag is set. -/
def InStep (w : ConfigWatcher) : Prop := w.worker.joinable = w.started

theorem inStep_new {path : Bytes} {setup : Setup} {w : ConfigWatcher}
    (h : new path setup = .ok w) : w.InStep := by
  cases setup with
  | ready =>
    cases h
    rfl
  | notFound => cases h
  | notOpened => cases h
  | noQueue => cases h
  | notRegistered => cases h

theorem inStep_start {w w' : ConfigWatcher} (h : w.start = .ok w') : w'.InStep := by
  rw [start] at h
  split at h
  · cases h
  · cases h
    rfl

theorem InStep.stop {w : ConfigWatcher} (h : w.InStep) : w.stop.InStep := by
  rw [ConfigWatcher.stop]
  split
  · rfl
  · exact h

/-- The end of the worker leaves the thread joinable. -/
theorem InStep.workerEnds {w : ConfigWatcher} (h : w.InStep) :
    w.workerEnds.InStep := by
  rw [ConfigWatcher.workerEnds]
  split
  · rename_i hrunning
    rw [InStep, hrunning] at h
    exact h
  · exact h

/-- Behind `Stop` the thread is joined. -/
theorem InStep.stop_joinable {w : ConfigWatcher} (h : w.InStep) :
    w.stop.worker.joinable = false := by
  rw [ConfigWatcher.stop]
  split
  · rfl
  · rename_i hstarted
    rw [InStep] at h
    rw [h]
    exact Bool.eq_false_iff.mpr hstarted

end ConfigWatcher

variable {env : Environment}

/-- What an action makes of the watcher. -/
theorem LogSystem.cw_of_perform {s s' : LogSystem} {action : Action}
    (h : s.perform env action = .ok (some s')) :
    (∃ path setup w, ConfigWatcher.new path setup = .ok w ∧ s'.cw = some w) ∨
      s.cw.mapM ConfigWatcher.start = .ok s'.cw ∨
      s'.cw = s.cw.map ConfigWatcher.stop ∨ s'.cw = s.cw := by
  cases action with
  | newManager doc =>
    rw [perform] at h
    split at h
    · cases h
    · cases h
      exact Or.inr (Or.inr (Or.inr rfl))
  | newWatcher path setup =>
    rw [perform] at h
    split at h
    · cases h
    · cases h
    · rename_i w hnew _
      cases h
      exact Or.inl ⟨path, setup, w, hnew, rfl⟩
    · rename_i w old hnew _
      obtain ⟨_, _, hok⟩ := Run.bind_eq_ok.mp h
      cases hok
      exact Or.inl ⟨path, setup, w, hnew, rfl⟩
  | linked =>
    rw [perform] at h
    split at h
    · cases h
      exact Or.inr (Or.inr (Or.inr rfl))
    · cases h
  | startWatcher =>
    rw [perform] at h
    obtain ⟨cw, hstart, hok⟩ := Run.bind_eq_ok.mp h
    cases hok
    exact Or.inr (Or.inl hstart)
  | stopWatcher =>
    cases h
    exact Or.inr (Or.inr (Or.inl rfl))
  | pause =>
    cases h
    exact Or.inr (Or.inr (Or.inr rfl))
  | remain =>
    cases h
    exact Or.inr (Or.inr (Or.inr rfl))

namespace Session

/-- The thread of the installed watcher is joinable exactly while the watcher is
started. -/
def ThreadInStep (t : Session) : Prop := ∀ w, t.system.cw = some w → w.InStep

theorem threadInStep_perform {s s' : LogSystem} {action : Action}
    (hs : ∀ w, s.cw = some w → w.InStep)
    (h : s.perform env action = .ok (some s')) :
    ∀ w, s'.cw = some w → w.InStep := by
  intro w hw
  rcases LogSystem.cw_of_perform h with
    ⟨path, setup, w', hnew, hcw⟩ | hstart | hcw | hcw
  · rw [hcw, Option.some_inj] at hw
    exact hw ▸ ConfigWatcher.inStep_new hnew
  · rw [hw] at hstart
    cases hold : s.cw with
    | none =>
      rw [hold] at hstart
      cases hstart
    | some old =>
      rw [hold] at hstart
      obtain ⟨w', hw', hsome⟩ := Run.bind_eq_ok.mp hstart
      cases hsome
      exact ConfigWatcher.inStep_start hw'
  · rw [hcw] at hw
    obtain ⟨old, hold, rfl⟩ := Option.map_eq_some_iff.mp hw
    exact (hs old hold).stop
  · rw [hcw] at hw
    exact hs w hw

/-- Every event keeps the invariant. -/
theorem threadInStep_step (t : Session) (e : Event) (t' : Session)
    (ht : t.ThreadInStep) (h : step env t e = .ok t') : t'.ThreadInStep := by
  cases e with
  | call c =>
    rw [step, Except.ok.injEq] at h
    subst h
    split
    · exact ht
    · exact ht
  | proceed =>
    rw [step] at h
    split at h
    · cases h
      exact ht
    · split at h
      · cases h
      · cases h
        exact ht
      · rename_i s' hperform
        cases h
        exact threadInStep_perform ht hperform
  | reload doc =>
    rw [step, Except.ok.injEq] at h
    subst h
    split
    · exact ht
    · exact ht
  | workerEnds =>
    cases h
    intro w hw
    obtain ⟨old, hold, rfl⟩ := Option.map_eq_some_iff.mp hw
    exact (ht old hold).workerEnds

theorem threadInStep_run {events : List Event} {t : Session}
    (hrun : run env events = .ok t) : t.ThreadInStep := by
  refine Machine.run_invariant ThreadInStep threadInStep_step ?_ hrun
  intro w hw
  cases hw

/-! ## Assigning to the thread, and destroying it -/

/-- The thread that this event assigns to. -/
def assigned (t : Session) : Event → Option Worker
  | .proceed =>
      match t.todo with
      | .startWatcher :: _ => t.system.cw.map fun w => w.worker
      | _ => none
  | _ => none

/-- The thread that this event destroys, as the destructor of its watcher has left
it. -/
def destroyed (t : Session) : Event → Option Worker
  | .proceed =>
      match t.todo with
      | .newWatcher _ .ready :: _ => t.system.cw.map fun w => w.stop.worker
      | _ => none
  | _ => none

/-- The event neither assigns to a joinable thread nor destroys one. -/
def SparesThread (t : Session) (e : Event) : Prop :=
  ∀ w, t.assigned e = some w ∨ t.destroyed e = some w → w.joinable = false

/-- The event calls `Start` on a watcher that is started. -/
def StartsAgain (t : Session) (e : Event) : Prop :=
  e = .proceed ∧ t.todo.head? = some .startWatcher ∧
    ∃ w, t.system.cw = some w ∧ w.started = true

theorem assigned_eq_some {t : Session} {e : Event} {worker : Worker}
    (h : t.assigned e = some worker) :
    e = .proceed ∧ t.todo.head? = some .startWatcher ∧
      ∃ w, t.system.cw = some w ∧ w.worker = worker := by
  unfold assigned at h
  split at h
  · split at h
    · rename_i rest htodo
      refine ⟨rfl, by rw [htodo, List.head?_cons], ?_⟩
      exact Option.map_eq_some_iff.mp h
    · cases h
  · cases h

theorem assigned_of_head {t : Session} {w : ConfigWatcher}
    (htodo : t.todo.head? = some .startWatcher) (hcw : t.system.cw = some w) :
    t.assigned .proceed = some w.worker := by
  obtain ⟨rest, hrest⟩ := List.head?_eq_some_iff.mp htodo
  simp only [assigned, hrest, hcw, Option.map_some]

theorem destroyed_eq_some {t : Session} {e : Event} {worker : Worker}
    (h : t.destroyed e = some worker) :
    ∃ w, t.system.cw = some w ∧ w.stop.worker = worker := by
  unfold destroyed at h
  split at h
  · split at h
    · exact Option.map_eq_some_iff.mp h
    · cases h
  · cases h

/-- An event that touches no thread spares it. -/
theorem sparesThread_of_untouched {t : Session} {e : Event}
    (hassigned : t.assigned e = none) (hdestroyed : t.destroyed e = none) :
    t.SparesThread e := by
  intro w htouched
  rw [hassigned, hdestroyed] at htouched
  rcases htouched with h | h
  · cases h
  · cases h

/-- In a reachable state an event spares the thread exactly when it does not start
a watcher again. -/
theorem sparesThread_iff {t : Session} (ht : t.ThreadInStep) (e : Event) :
    t.SparesThread e ↔ ¬ t.StartsAgain e := by
  constructor
  · intro hspares hstarts
    obtain ⟨rfl, htodo, w, hcw, hstarted⟩ := hstarts
    have hfree := hspares w.worker (Or.inl (assigned_of_head htodo hcw))
    rw [ht w hcw, hstarted] at hfree
    cases hfree
  · intro hno worker htouched
    rcases htouched with hassigned | hdestroyed
    · obtain ⟨he, htodo, w, hcw, rfl⟩ := assigned_eq_some hassigned
      rw [ht w hcw]
      apply Bool.eq_false_iff.mpr
      intro hstarted
      exact hno ⟨he, htodo, w, hcw, hstarted⟩
    · obtain ⟨w, hcw, rfl⟩ := destroyed_eq_some hdestroyed
      exact (ht w hcw).stop_joinable

/-- An action raises nothing but for a joinable thread. -/
theorem perform_isOk_iff (s : LogSystem) (action : Action) (rest : List Action)
    (loaded : List Document) :
    (∃ next, s.perform env action = .ok next) ↔
      SparesThread { system := s, todo := action :: rest, loaded := loaded }
        .proceed := by
  cases action with
  | newManager doc =>
    refine iff_of_true ?_ (sparesThread_of_untouched rfl rfl)
    rw [LogSystem.perform]
    cases LogManager.new env doc with
    | error e => exact ⟨_, rfl⟩
    | ok m => exact ⟨_, rfl⟩
  | newWatcher path setup =>
    cases setup with
    | ready =>
      cases hcw : s.cw with
      | none =>
        refine iff_of_true ⟨some { s with cw := some ⟨path, false, .idle⟩ }, ?_⟩ ?_
        · simp only [LogSystem.perform, ConfigWatcher.new, hcw]
        · simp [SparesThread, assigned, destroyed, hcw]
      | some old =>
        simp only [SparesThread, LogSystem.perform, ConfigWatcher.new, hcw,
          ConfigWatcher.destroy, assigned, destroyed, Option.map_some, reduceCtorEq,
          false_or, Option.some.injEq, forall_eq']
        cases old.stop.worker.joinable with
        | true =>
          refine iff_of_false (fun hends => ?_) (by simp)
          obtain ⟨_, h⟩ := hends
          cases h
        | false => exact iff_of_true ⟨_, rfl⟩ rfl
    | notFound => exact iff_of_true ⟨_, rfl⟩ (sparesThread_of_untouched rfl rfl)
    | notOpened => exact iff_of_true ⟨_, rfl⟩ (sparesThread_of_untouched rfl rfl)
    | noQueue => exact iff_of_true ⟨_, rfl⟩ (sparesThread_of_untouched rfl rfl)
    | notRegistered =>
        exact iff_of_true ⟨_, rfl⟩ (sparesThread_of_untouched rfl rfl)
  | linked => exact iff_of_true ⟨_, rfl⟩ (sparesThread_of_untouched rfl rfl)
  | startWatcher =>
    cases hcw : s.cw with
    | none =>
      refine iff_of_true ⟨some { s with cw := none }, ?_⟩ ?_
      · rw [LogSystem.perform, hcw]
        rfl
      · simp [SparesThread, assigned, destroyed, hcw]
    | some w =>
      simp only [SparesThread, LogSystem.perform, hcw, assigned, destroyed,
        Option.map_some, reduceCtorEq, or_false, Option.some.injEq, forall_eq']
      cases hjoinable : w.worker.joinable with
      | true =>
        have hstart : w.start = .error .terminate := if_pos hjoinable
        refine iff_of_false (fun hends => ?_) (by simp)
        obtain ⟨_, h⟩ := hends
        obtain ⟨_, hmap, _⟩ := Run.bind_eq_ok.mp h
        obtain ⟨_, hw, _⟩ := Run.bind_eq_ok.mp hmap
        rw [hstart] at hw
        cases hw
      | false =>
        have hstart : w.start =
            .ok { w with started := true, worker := .running } :=
          if_neg (by simp [hjoinable])
        refine iff_of_true ⟨some { s with
          cw := some { w with started := true, worker := .running } }, ?_⟩ rfl
        show (Except.bind (Except.bind w.start _) _) = _
        rw [hstart]
        rfl
  | stopWatcher => exact iff_of_true ⟨_, rfl⟩ (sparesThread_of_untouched rfl rfl)
  | pause => exact iff_of_true ⟨_, rfl⟩ (sparesThread_of_untouched rfl rfl)
  | remain => exact iff_of_true ⟨_, rfl⟩ (sparesThread_of_untouched rfl rfl)

/-- What an event does to a joinable thread is the only thing that ends the
program. -/
theorem step_isOk_iff (t : Session) (e : Event) :
    (∃ t', step env t e = .ok t') ↔ t.SparesThread e := by
  cases e with
  | call c => exact iff_of_true ⟨_, rfl⟩ (sparesThread_of_untouched rfl rfl)
  | reload doc => exact iff_of_true ⟨_, rfl⟩ (sparesThread_of_untouched rfl rfl)
  | workerEnds => exact iff_of_true ⟨_, rfl⟩ (sparesThread_of_untouched rfl rfl)
  | proceed =>
    obtain ⟨system, todo, loaded⟩ := t
    cases todo with
    | nil => exact iff_of_true ⟨_, rfl⟩ (sparesThread_of_untouched rfl rfl)
    | cons action rest =>
      rw [← perform_isOk_iff system action rest loaded, step]
      cases hperform : system.perform env action with
      | error a => simp [hperform]
      | ok next => cases next <;> simp [hperform]

/-- In every run each event spares the watcher's thread exactly when no event calls
`Start` on a watcher that is started, and only such an event ends the program. -/
theorem sparesThread_along_iff (events : List Event) :
    (Machine.Each (step env) SparesThread blank events ↔
      Machine.Each (step env) (fun t e => ¬ t.StartsAgain e) blank events) ∧
    ((∃ t, run env events = .ok t) ↔
      Machine.Each (step env) (fun t e => ¬ t.StartsAgain e) blank events) := by
  have hspares : Machine.Each (step env) SparesThread blank events ↔
      Machine.Each (step env) (fun t e => ¬ t.StartsAgain e) blank events := by
    apply Machine.each_congr
    intro before e after t _ hrun
    exact sparesThread_iff (threadInStep_run hrun) e
  refine ⟨hspares, ?_⟩
  rw [← hspares, run, Machine.run_isOk_iff_each]
  apply Machine.each_congr
  intro before e after t _ _
  exact step_isOk_iff t e

/-- `Start()` on a system that was started. -/
theorem thread_hit_by_second_start :
    ∃ events t, run plainEnvironment events = .ok t ∧ ¬ t.SparesThread .proceed ∧
      step plainEnvironment t .proceed = .error .terminate := by
  refine ⟨startedEvents ++ [.call .start, .proceed],
    { system := .started, todo := [.startWatcher, .remain],
      loaded := [documentOf enabledKeys] }, rfl, ?_, rfl⟩
  intro hspares
  have hfree := hspares .running (Or.inl rfl)
  cases hfree

end Session

end UniServer.Logging
