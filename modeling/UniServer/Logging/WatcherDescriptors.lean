/-
  Logging/WatcherDescriptors.lean --- the descriptors of the watchers.

  The constructor of `ConfigWatcherImpl` opens the file and then a queue, and closes
  what it has opened before it throws; the destructor closes both.  `LogSystem`
  constructs a watcher for each `Init` and `Start(path)`, and destroys the one that
  it had.

  The session of `Logging/System` is run with the ledger of these descriptors, which
  has no part in how it goes (`erase_step`).
-/
import UniServer.Foundation.Ledger
import UniServer.Logging.System

set_option autoImplicit false

namespace UniServer.Logging

open UniServer.Foundation UniServer.Common

/-! ## One watcher -/

/-- `fd_` and `kq_` -/
structure WatchFds where
  fd : Nat
  kq : Nat
  deriving DecidableEq

namespace WatchFds

/-- `ConfigWatcherImpl::ConfigWatcherImpl`; no descriptors when it throws. -/
def construct (setup : Setup) (l : Ledger) : Option WatchFds × Ledger :=
  match setup with
  | .notFound => (none, l)
  | .notOpened => (none, l)
  | .noQueue =>
      let (fd, l) := l.acquire
      (none, l.release fd)
  | .notRegistered =>
      let (fd, l) := l.acquire
      let (kq, l) := l.acquire
      (none, (l.release kq).release fd)
  | .ready =>
      let (fd, l) := l.acquire
      let (kq, l) := l.acquire
      (some { fd := fd, kq := kq }, l)

/-- `ConfigWatcherImpl::~ConfigWatcherImpl`, behind `Stop` -/
def destroy (own : WatchFds) (l : Ledger) : Ledger :=
  (l.release own.fd).release own.kq

/-- The descriptors of a watcher, if there is one. -/
def held : Option WatchFds → List Nat
  | none => []
  | some own => [own.fd, own.kq]

theorem construct_isSome (setup : Setup) (l : Ledger) :
    (construct setup l).1.isSome = true ↔ setup = .ready := by
  cases setup <;> simp [construct]

/-- What is open behind the constructor are the descriptors of the new watcher. -/
theorem change_construct (setup : Setup) (l : Ledger) :
    Ledger.Change [] (held (construct setup l).1) l (construct setup l).2 := by
  have hfd := Ledger.change_acquire l
  have hboth : Ledger.Change [] [l.acquire.1, l.acquire.2.acquire.1] l
      l.acquire.2.acquire.2 :=
    (hfd.trans ((Ledger.change_acquire l.acquire.2).frame _)).congr (.refl _)
      (List.Perm.swap _ _ _)
  cases setup with
  | notFound => exact .refl [] l
  | notOpened => exact .refl [] l
  | noQueue => exact hfd.trans (Ledger.change_release _ _)
  | notRegistered =>
    have hkq : Ledger.Change [l.acquire.2.acquire.1, l.acquire.1] [l.acquire.1]
        l.acquire.2.acquire.2
          (l.acquire.2.acquire.2.release l.acquire.2.acquire.1) :=
      (Ledger.change_release _ _).frame _
    exact ((hboth.congr (.refl _) (List.Perm.swap _ _ _)).trans hkq).trans
      (Ledger.change_release _ _)
  | ready => exact hboth

theorem change_destroy (own : WatchFds) (l : Ledger) :
    Ledger.Change [own.fd, own.kq] [] l (own.destroy l) :=
  ((Ledger.change_release l own.fd).frame [own.kq]).trans
    (Ledger.change_release _ own.kq)

end WatchFds

/-! ## The session with its descriptors -/

/-- The session, the descriptors of all watchers, and those of the watcher that is
installed. -/
structure Watched where
  session : Session
  fds : Ledger
  own : Option WatchFds

namespace Watched

variable (env : Environment)

/-- The program has just started. -/
def blank : Watched where
  session := .blank
  fds := {}
  own := none

/-- The event has led to this session: a new watcher is constructed first, and then
the old one is destroyed. -/
def record (t : Watched) (e : Event) (session : Session) : Watched :=
  match e, t.session.todo with
  | .proceed, .newWatcher _ setup :: _ =>
      match WatchFds.construct setup t.fds with
      | (none, fds) => { t with session := session, fds := fds }
      | (some own, fds) =>
          { session := session,
            fds := t.own.elim fds fun old => old.destroy fds,
            own := some own }
  | _, _ => { t with session := session }

/-- One event. -/
def step (t : Watched) (e : Event) : Run Watched := do
  let session ← t.session.step env e
  return t.record e session

/-- The state after these events. -/
def run (events : List Event) : Run Watched := Machine.run (step env) blank events

theorem record_session (t : Watched) (e : Event) (session : Session) :
    (t.record e session).session = session := by
  unfold record
  split
  · split <;> rfl
  · rfl

variable {env}

theorem erase_step (t : Watched) (e : Event) :
    (step env t e).map Watched.session = t.session.step env e := by
  unfold step
  cases t.session.step env e with
  | error a => rfl
  | ok session => exact congrArg Except.ok (record_session t e session)

/-- What is known of the descriptors. -/
structure Kept (t : Watched) : Prop where
  fds : t.fds.Holds (WatchFds.held t.own)
  own : t.own.isSome = t.session.system.cw.isSome

/-- A new watcher is installed when its constructor returns; else the operation ends
here. -/
theorem perform_newWatcher {s : LogSystem} {path : Bytes} {setup : Setup}
    {next : Option LogSystem}
    (h : s.perform env (.newWatcher path setup) = .ok next) :
    (setup = .ready ∧ ∃ s', next = some s' ∧ s'.cw.isSome = true) ∨
      setup ≠ .ready ∧ next = none := by
  rw [LogSystem.perform] at h
  cases setup with
  | ready =>
    refine Or.inl ⟨rfl, ?_⟩
    cases hcw : s.cw with
    | none =>
      simp only [ConfigWatcher.new, hcw, Except.ok.injEq] at h
      exact ⟨_, h.symm, rfl⟩
    | some old =>
      simp only [ConfigWatcher.new, hcw] at h
      obtain ⟨_, _, hok⟩ := Run.bind_eq_ok.mp h
      cases hok
      exact ⟨_, rfl, rfl⟩
  | notFound =>
    cases h
    exact Or.inr ⟨by simp, rfl⟩
  | notOpened =>
    cases h
    exact Or.inr ⟨by simp, rfl⟩
  | noQueue =>
    cases h
    exact Or.inr ⟨by simp, rfl⟩
  | notRegistered =>
    cases h
    exact Or.inr ⟨by simp, rfl⟩

/-- No other action installs a watcher, or takes it away. -/
theorem cw_isSome_of_perform {s s' : LogSystem} {action : Action}
    (hother : ∀ path setup, action ≠ .newWatcher path setup)
    (h : s.perform env action = .ok (some s')) : s'.cw.isSome = s.cw.isSome := by
  cases action with
  | newManager doc =>
    rw [LogSystem.perform] at h
    split at h
    · cases h
    · cases h
      rfl
  | newWatcher path setup => exact absurd rfl (hother path setup)
  | linked =>
    rw [LogSystem.perform] at h
    split at h
    · cases h
      rfl
    · cases h
  | startWatcher =>
    rw [LogSystem.perform] at h
    obtain ⟨cw, hstart, hok⟩ := Run.bind_eq_ok.mp h
    cases hok
    cases hcw : s.cw with
    | none =>
      rw [hcw] at hstart
      cases hstart
      rfl
    | some w =>
      rw [hcw] at hstart
      obtain ⟨w', _, hsome⟩ := Run.bind_eq_ok.mp hstart
      cases hsome
      rfl
  | stopWatcher =>
    cases h
    exact Option.isSome_map
  | pause =>
    cases h
    rfl
  | remain =>
    cases h
    rfl

/-- An event that constructs no watcher leaves both sides alone. -/
theorem Kept.of_same {t : Watched} (h : Kept t) {session : Session}
    (hcw : session.system.cw.isSome = t.session.system.cw.isSome) :
    Kept { t with session := session } where
  fds := h.fds
  own := h.own.trans hcw.symm

theorem kept_newWatcher {t : Watched} (h : Kept t) (setup : Setup)
    {session : Session}
    (hready : setup = .ready → session.system.cw.isSome = true)
    (hfails : setup ≠ .ready →
      session.system.cw.isSome = t.session.system.cw.isSome) :
    Kept (match WatchFds.construct setup t.fds with
      | (none, fds) => { t with session := session, fds := fds }
      | (some own, fds) =>
          { session := session,
            fds := t.own.elim fds fun old => old.destroy fds,
            own := some own }) := by
  have hchange := WatchFds.change_construct setup t.fds
  have hisSome := WatchFds.construct_isSome setup t.fds
  cases hmade : WatchFds.construct setup t.fds with
  | mk made fds =>
    rw [hmade] at hchange hisSome
    have hnew := hchange _ h.fds
    cases made with
    | none =>
      have hnot : setup ≠ .ready := fun hready => by cases hisSome.mpr hready
      exact ⟨hnew, h.own.trans (hfails hnot).symm⟩
    | some own =>
      have hset : setup = .ready := hisSome.mp rfl
      refine ⟨?_, (hready hset).symm⟩
      cases hown : t.own with
      | none =>
        rw [hown] at hnew
        exact hnew
      | some old =>
        rw [hown] at hnew
        have hold := (WatchFds.change_destroy old fds).frame [own.fd, own.kq] []
        rw [List.append_nil, List.append_nil] at hold
        exact hold (Reconciled.congr hnew List.perm_append_comm)

theorem kept_step (t : Watched) (e : Event) (t' : Watched) (h : Kept t)
    (hstep : step env t e = .ok t') : Kept t' := by
  obtain ⟨session, hsession, hok⟩ := Run.bind_eq_ok.mp hstep
  cases hok
  cases e with
  | call c =>
    cases hsession
    refine h.of_same ?_
    split <;> rfl
  | proceed =>
    rw [Session.step] at hsession
    cases htodo : t.session.todo with
    | nil =>
      rw [htodo] at hsession
      cases hsession
      simp only [record, htodo]
      exact h.of_same rfl
    | cons action rest =>
      simp only [htodo] at hsession
      split at hsession
      · cases hsession
      · -- the operation ends here
        rename_i hperform
        cases hsession
        cases action with
        | newWatcher path setup =>
          simp only [record, htodo]
          rcases perform_newWatcher hperform with ⟨_, s', hsome, _⟩ | ⟨hnot, _⟩
          · cases hsome
          · exact kept_newWatcher h setup (fun hready => absurd hready hnot)
              fun _ => rfl
        | _ =>
          simp only [record, htodo]
          exact h.of_same rfl
      · rename_i s hperform
        cases hsession
        cases action with
        | newWatcher path setup =>
          simp only [record, htodo]
          rcases perform_newWatcher hperform with
            ⟨hready, s', hsome, hcw⟩ | ⟨_, hnone⟩
          · cases hsome
            exact kept_newWatcher h setup (fun _ => hcw)
              fun hnot => absurd hready hnot
          · cases hnone
        | _ =>
          simp only [record, htodo]
          exact h.of_same (cw_isSome_of_perform (by simp) hperform)
  | reload doc =>
    cases hsession
    refine h.of_same ?_
    split <;> rfl
  | workerEnds =>
    cases hsession
    exact h.of_same Option.isSome_map

/-- A run of the session, with its ledger. -/
theorem kept_of_run {events : List Event} {s : Session}
    (hrun : Session.run env events = .ok s) :
    ∃ t, run env events = .ok t ∧ t.session = s ∧ Kept t := by
  have herase : (run env events).map Watched.session = .ok s := by
    rw [← hrun]
    exact Machine.run_erase Watched.session erase_step blank events
  cases ht : run env events with
  | error a =>
    rw [ht] at herase
    cases herase
  | ok t =>
    rw [ht] at herase
    cases herase
    have hblank : Kept blank := ⟨.refl [], rfl⟩
    exact ⟨t, rfl, rfl, Machine.run_invariant Kept kept_step hblank ht⟩

/-- The destructor of `cw_`, when the program exits. -/
def exit (t : Watched) : Run Ledger := do
  match t.session.system.cw with
  | none => return t.fds
  | some w =>
    w.destroy
    return t.own.elim t.fds fun own => own.destroy t.fds

/-- It joins the thread of a watcher that is started, and closes what is open. -/
theorem Kept.exit {t : Watched} (h : Kept t)
    (hstarted : ∀ w, t.session.system.cw = some w → w.started = true) :
    ∃ l, t.exit = .ok l ∧ l.Holds [] := by
  have hown := h.own
  have hfds := h.fds
  unfold Watched.exit
  cases hcw : t.session.system.cw with
  | none =>
    rw [hcw, Option.isSome_none, Option.isSome_eq_false_iff,
      Option.isNone_iff_eq_none] at hown
    rw [hown] at hfds
    exact ⟨t.fds, rfl, hfds⟩
  | some w =>
    have hdestroy : w.destroy = .ok () := by
      unfold ConfigWatcher.destroy ConfigWatcher.stop
      rw [if_pos (hstarted w hcw)]
      rfl
    rw [hcw, Option.isSome_some] at hown
    obtain ⟨own, hsome⟩ := Option.isSome_iff_exists.mp hown
    rw [hsome] at hfds
    refine ⟨own.destroy t.fds, ?_, WatchFds.change_destroy own t.fds [] hfds⟩
    simp only [hdestroy, hsome]
    rfl

/-- In every run of the session, whatever constructor of a watcher fails: each
descriptor that one has opened was closed once, or is one of the two of the watcher
that is installed, and no other is open. -/
theorem run_descriptors {events : List Event} {s : Session}
    (hrun : Session.run env events = .ok s) :
    ∃ t, run env events = .ok t ∧ t.session = s ∧
      (List.range t.fds.acquired).Perm (t.fds.released ++ WatchFds.held t.own) ∧
      (t.fds.released ++ WatchFds.held t.own).Nodup ∧
      t.own.isSome = s.system.cw.isSome := by
  obtain ⟨t, ht, rfl, hkept⟩ := kept_of_run hrun
  exact ⟨t, ht, rfl, hkept.fds, hkept.fds.nodup, hkept.own⟩

/-- A system that was started twice, with a queue that could not be made in
between. -/
def restarted : List Event :=
  Session.startedEvents ++
    [.call .stop, .proceed, .proceed, .proceed,
      .call (.init (ascii "log.yml") (documentOf enabledKeys) .noQueue), .proceed,
      .proceed,
      .call (.startAt (ascii "log.yml") (documentOf enabledKeys) .ready), .proceed,
      .proceed, .proceed]

theorem run_descriptors_restarted :
    ∃ t, run plainEnvironment restarted = .ok t ∧
      (List.range t.fds.acquired).Perm (t.fds.released ++ WatchFds.held t.own) ∧
      t.own.isSome = true := by
  obtain ⟨s, hrun, hcw⟩ : ∃ s, Session.run plainEnvironment restarted = .ok s ∧
      s.system.cw.isSome = true := ⟨_, rfl, rfl⟩
  obtain ⟨t, ht, _, hperm, _, hown⟩ := run_descriptors hrun
  exact ⟨t, ht, hperm, hown.trans hcw⟩

end Watched

end UniServer.Logging
