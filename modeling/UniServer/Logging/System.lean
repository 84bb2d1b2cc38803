/-
  Logging/System.lean --- `LogSystem`, its `ConfigWatcher`, and what can happen to
  the two.

  The operations run one at a time, under a mutex, but the worker of a watcher
  calls `lm_->Init` without it.  So an operation is a list of actions, each of
  them one call of a method of `LogManager` or `ConfigWatcher`, and reloads may
  come between any two of them.  An action that throws ends its operation, which
  then returns false; `Stop` returns nothing, and ends at its check in the same
  way.

  What the file of a path holds, and how the constructor of the watcher goes, is
  part of the call.  A worker may end by itself at any time and stays joinable
  until it is joined.
-/
import UniServer.Foundation.Cxx
import UniServer.Foundation.Machine
import UniServer.Logging.Reload

set_option autoImplicit false

namespace UniServer.Logging

open UniServer.Foundation UniServer.Common

/-! ## The watcher -/

/-- `worker_`, a `std::thread`. -/
inductive Worker where
  /-- not joinable -/
  | idle
  /-- in `Run` -/
  | running
  /-- has returned from `Run`, and is not joined yet -/
  | ended
  deriving DecidableEq, Repr

def Worker.joinable : Worker → Bool
  | .idle => false
  | .running => true
  | .ended => true

/-- How the system calls of the constructor of `ConfigWatcherImpl` go. -/
inductive Setup where
  | ready
  /-- `exists` -/
  | notFound
  /-- `open` -/
  | notOpened
  /-- `kqueue` -/
  | noQueue
  /-- `kevent` -/
  | notRegistered
  deriving DecidableEq, Repr

/-- `ConfigWatcher`, with the path that `fd_` was opened for. -/
structure ConfigWatcher where
  path : Bytes
  started : Bool
  worker : Worker
  deriving DecidableEq, Repr

namespace ConfigWatcher

/-- `ConfigWatcherImpl::ConfigWatcherImpl`. -/
def new (path : Bytes) : Setup → Run ConfigWatcher
  | .ready => .ok { path := path, started := false, worker := .idle }
  | .notFound => .error (.throw (.runtimeError (ascii "File not found: " ++ path)))
  | .notOpened =>
      .error (.throw (.runtimeError
        (ascii "Unable to open file for watching: " ++ path)))
  | .noQueue =>
      .error (.throw (.runtimeError
        (ascii "kqueue failed to return a descriptor")))
  | .notRegistered =>
      .error (.throw (.runtimeError (ascii "kevent registration error")))

/-- `ConfigWatcherImpl::Start`; assigning to a joinable thread terminates. -/
def start (w : ConfigWatcher) : Run ConfigWatcher :=
  if w.worker.joinable then .error .terminate
  else .ok { w with started := true, worker := .running }

/-- `ConfigWatcherImpl::Stop`: the event that it triggers ends the worker, which it
joins. -/
def stop (w : ConfigWatcher) : ConfigWatcher :=
  if w.started then { w with started := false, worker := .idle } else w

/-- `ConfigWatcherImpl::~ConfigWatcherImpl`; destroying a joinable thread
terminates. -/
def destroy (w : ConfigWatcher) : Run Unit :=
  if w.stop.worker.joinable then .error .terminate else .ok ()

/-- The worker returns from `Run` by itself. -/
def workerEnds (w : ConfigWatcher) : ConfigWatcher :=
  if w.worker = .running then { w with worker := .ended } else w

end ConfigWatcher

/-! ## The system -/

/-- The static members of `LogSystem`. -/
structure LogSystem where
  lm : Option LogManager
  cw : Option ConfigWatcher
  deriving DecidableEq, Repr

/-- What the operations are made of. -/
inductive Action where
  /-- `lm_ = std::make_unique<LogManager>(path)`, with the document under the
  path -/
  | newManager (doc : Document)
  /-- `cw_ = std::make_unique<config::ConfigWatcher>(path, ...)` -/
  | newWatcher (path : Bytes) (setup : Setup)
  /-- `if (!lm_ || !cw_) return` -/
  | linked
  /-- `cw_->Start()` -/
  | startWatcher
  /-- `cw_->Stop()` -/
  | stopWatcher
  /-- `lm_->Pause()` -/
  | pause
  /-- `if (lm_->Paused()) lm_->Remain()` -/
  | remain

/-- The document that an action loads. -/
def Action.documents : Action → List Document
  | .newManager doc => [doc]
  | _ => []

theorem Action.documents_eq_nil_or (action : Action) :
    action.documents = [] ∨ ∃ doc, action = .newManager doc := by
  cases action <;> simp [Action.documents]

/-- The operations of `LogSystem`. -/
inductive Call where
  /-- `Init(path)` -/
  | init (path : Bytes) (doc : Document) (setup : Setup)
  /-- `Start()` -/
  | start
  /-- `Start(path)` -/
  | startAt (path : Bytes) (doc : Document) (setup : Setup)
  /-- `Stop()` -/
  | stop

def Call.actions : Call → List Action
  | .init path doc setup => [.newManager doc, .newWatcher path setup, .pause]
  | .start => [.linked, .startWatcher, .remain]
  | .startAt path doc setup =>
      [.newManager doc, .newWatcher path setup, .startWatcher]
  | .stop => [.linked, .stopWatcher, .pause]

namespace LogSystem

/-- Nothing was ever called. -/
def blank : LogSystem where
  lm := none
  cw := none

/-- `LogSystem::Get`. -/
def get (s : LogSystem) : Option Logger := s.lm.bind LogManager.get

/-- `LogSystem::GetLevel`. -/
def getLevel (s : LogSystem) : Log :=
  match s.lm with
  | none => .unknown
  | some m => m.getLevel

variable (env : Environment)

/-- One action: the system after it, or `none` when the operation ends here.  The
pointers that the last four follow are not null: the operation has checked or
assigned them. -/
def perform (s : LogSystem) : Action → Run (Option LogSystem)
  | .newManager doc =>
      match LogManager.new env doc with
      | .error _ => .ok none
      | .ok m => .ok (some { s with lm := some m })
  | .newWatcher path setup =>
      match ConfigWatcher.new path setup, s.cw with
      | .error (.throw (.runtimeError _)), _ => .ok none
      | .error a, _ => .error a
      | .ok w, none => .ok (some { s with cw := some w })
      | .ok w, some old => do
          old.destroy
          return some { s with cw := some w }
  | .linked => .ok (if s.lm.isSome && s.cw.isSome then some s else none)
  | .startWatcher => do
      let cw ← s.cw.mapM ConfigWatcher.start
      return some { s with cw := cw }
  | .stopWatcher => .ok (some { s with cw := s.cw.map ConfigWatcher.stop })
  | .pause => .ok (some { s with lm := s.lm.map LogManager.pause })
  | .remain =>
      .ok (some { s with lm := s.lm.map fun m => if m.paused then m.remain else m })

/-- An operation that nothing comes between: what it returns, and the system it
leaves. -/
def execute : List Action → LogSystem → Run (Bool × LogSystem)
  | [], s => .ok (true, s)
  | action :: rest, s =>
      match s.perform env action with
      | .error a => .error a
      | .ok none => .ok (false, s)
      | .ok (some s') => execute rest s'

/-- A worker is in `Run`. -/
def watching (s : LogSystem) : Bool :=
  match s.cw with
  | none => false
  | some w => w.worker = .running

/-- The callback of the watcher; what it raises is caught in `Run`. -/
def reload (s : LogSystem) (doc : Document) : LogSystem :=
  { s with lm := s.lm.map fun m => m.reload env doc }

def workerEnds (s : LogSystem) : LogSystem :=
  { s with cw := s.cw.map ConfigWatcher.workerEnds }

/-- A worker watches the file of a document that configures a logger. -/
def started : LogSystem where
  lm := some { logger := some { level := .info, sinks := [] }, paused := false }
  cw := some { path := ascii "log.yml", started := true, worker := .running }

end LogSystem

/-! ## Runs -/

/-- The system, what is left of the operation that holds the mutex, and the
documents that were loaded, oldest first. -/
structure Session where
  system : LogSystem
  todo : List Action
  loaded : List Document

inductive Event where
  /-- an operation takes the mutex -/
  | call (c : Call)
  /-- the operation that holds the mutex goes on -/
  | proceed
  /-- the worker finds the file changed to this document -/
  | reload (doc : Document)
  /-- the worker returns from `Run` by itself -/
  | workerEnds

namespace Session

/-- The program has just started. -/
def blank : Session where
  system := .blank
  todo := []
  loaded := []

variable (env : Environment)

/-- One event.  An event that cannot happen in a state, as a call while another
holds the mutex, or a reload without a worker, leaves the state alone. -/
def step (t : Session) : Event → Run Session
  | .call c => .ok (if t.todo.isEmpty then { t with todo := c.actions } else t)
  | .proceed =>
      match t.todo with
      | [] => .ok t
      | action :: rest =>
          match t.system.perform env action with
          | .error a => .error a
          | .ok none =>
              .ok { t with todo := [], loaded := t.loaded ++ action.documents }
          | .ok (some s) =>
              .ok
                { system := s,
                  todo := rest,
                  loaded := t.loaded ++ action.documents }
  | .reload doc =>
      .ok (if t.system.watching then
        { t with system := t.system.reload env doc, loaded := t.loaded ++ [doc] }
      else t)
  | .workerEnds => .ok { t with system := t.system.workerEnds }

/-- The session after these events. -/
def run (events : List Event) : Run Session := Machine.run (step env) blank events

/-- An operation that nothing comes between. -/
def operation (c : Call) : List Event :=
  .call c :: List.replicate c.actions.length .proceed

/-- Going on is nothing when no operation holds the mutex. -/
theorem run_idle (s : LogSystem) (loaded : List Document) (n : Nat) :
    Machine.run (step env) { system := s, todo := [], loaded := loaded }
        (List.replicate n .proceed) =
      .ok { system := s, todo := [], loaded := loaded } := by
  induction n with
  | zero => rfl
  | succ n ih => exact (Machine.run_cons rfl _).trans ih

/-- Its actions leave what they leave together. -/
theorem run_execute {actions : List Action} {s s' : LogSystem} {b : Bool}
    (h : LogSystem.execute env actions s = .ok (b, s')) (loaded : List Document) :
    ∃ loaded',
      Machine.run (step env) { system := s, todo := actions, loaded := loaded }
          (List.replicate actions.length .proceed) =
        .ok { system := s', todo := [], loaded := loaded' } := by
  induction actions generalizing s loaded with
  | nil =>
    rw [LogSystem.execute, Except.ok.injEq, Prod.mk.injEq] at h
    exact ⟨loaded, by rw [← h.2]; rfl⟩
  | cons action rest ih =>
    rw [LogSystem.execute] at h
    rw [List.length_cons, List.replicate_succ]
    cases hperform : s.perform env action with
    | error a =>
      rw [hperform] at h
      cases h
    | ok next =>
      rw [hperform] at h
      cases next with
      | none =>
        simp only [Except.ok.injEq, Prod.mk.injEq] at h
        refine ⟨loaded ++ action.documents, ?_⟩
        rw [← h.2]
        refine (Machine.run_cons ?_ _).trans (run_idle env s _ rest.length)
        simp only [step, hperform]
      | some s₁ =>
        obtain ⟨loaded', hrun⟩ := ih h (loaded ++ action.documents)
        refine ⟨loaded', ?_⟩
        rw [← hrun]
        refine Machine.run_cons ?_ _
        simp only [step, hperform]

/-- The same, from a state in which the mutex is free. -/
theorem run_operation {events : List Event} {t : Session}
    (hrun : run env events = .ok t) (hfree : t.todo = []) {c : Call}
    {s' : LogSystem} {b : Bool}
    (h : LogSystem.execute env c.actions t.system = .ok (b, s')) :
    ∃ loaded', run env (events ++ operation c) =
      .ok { system := s', todo := [], loaded := loaded' } := by
  obtain ⟨loaded', hproceeds⟩ := run_execute env h t.loaded
  refine ⟨loaded', ?_⟩
  have hcall : step env t (.call c) = .ok { t with todo := c.actions } := by
    simp only [step, hfree, List.isEmpty_nil, if_true]
  rw [run, Machine.run_append (step env) hrun, operation, Machine.run_cons hcall]
  exact hproceeds

/-! ### A system that was started -/

/-- What is known of a system that `Start(path)` was the first call for, whatever
its worker does. -/
structure Started (path : Bytes) (doc : Document) (setup : Setup) (t : Session) :
    Prop where
  idle : t.todo = []
  manager : t.system.lm.isSome = true ↔ ∃ b, LogManager.loads env doc = .ok b
  watcher : t.system.cw.isSome = true ↔
    (∃ b, LogManager.loads env doc = .ok b) ∧ setup = .ready
  thread : ∀ w, t.system.cw = some w →
    w.path = path ∧ w.started = true ∧ w.worker.joinable = true

/-- `Start(path)` returns, whatever the file holds and the watcher finds. -/
theorem run_startAt (path : Bytes) (doc : Document) (setup : Setup) :
    ∃ t, run env (operation (.startAt path doc setup)) = .ok t ∧
      Started env path doc setup t := by
  obtain ⟨b, s, hexecute, hmanager, hwatcher, hthread⟩ : ∃ b s,
      LogSystem.execute env (Call.startAt path doc setup).actions .blank =
        .ok (b, s) ∧
      (s.lm.isSome = true ↔ ∃ b, LogManager.loads env doc = .ok b) ∧
      (s.cw.isSome = true ↔
        (∃ b, LogManager.loads env doc = .ok b) ∧ setup = .ready) ∧
      ∀ w, s.cw = some w →
        w.path = path ∧ w.started = true ∧ w.worker.joinable = true := by
    rw [Call.actions, LogSystem.execute, LogSystem.perform, LogManager.new_eq]
    cases LogManager.loads env doc with
    | error e => exact ⟨_, _, rfl, by simp [LogSystem.blank]⟩
    | ok loaded =>
      cases setup with
      | ready =>
        refine ⟨_, _, rfl, by simp, by simp, ?_⟩
        rintro w ⟨⟩
        exact ⟨rfl, rfl, rfl⟩
      | notFound => exact ⟨_, _, rfl, by simp [LogSystem.blank]⟩
      | notOpened => exact ⟨_, _, rfl, by simp [LogSystem.blank]⟩
      | noQueue => exact ⟨_, _, rfl, by simp [LogSystem.blank]⟩
      | notRegistered => exact ⟨_, _, rfl, by simp [LogSystem.blank]⟩
  have hblank : run env [] = .ok blank := rfl
  obtain ⟨loaded, hrun⟩ := run_operation env hblank rfl hexecute
  exact ⟨_, hrun, rfl, hmanager, hwatcher, hthread⟩

/-- What the worker of a watcher does by itself. -/
inductive WorkerEvent where
  /-- finds the file changed to this document -/
  | reload (doc : Document)
  /-- returns from `Run` -/
  | ends

def WorkerEvent.event : WorkerEvent → Event
  | .reload doc => .reload doc
  | .ends => .workerEnds

variable {env} {path : Bytes} {doc : Document} {setup : Setup} {t : Session}

theorem Started.step_worker (h : Started env path doc setup t) (e : WorkerEvent) :
    ∃ t', step env t e.event = .ok t' ∧ Started env path doc setup t' := by
  cases e with
  | reload doc' =>
    refine ⟨_, rfl, ?_⟩
    have hlm : (t.system.reload env doc').lm.isSome = t.system.lm.isSome :=
      Option.isSome_map
    split
    · exact { h with manager := hlm.symm ▸ h.manager }
    · exact h
  | ends =>
    have hcw : t.system.workerEnds.cw.isSome = t.system.cw.isSome :=
      Option.isSome_map
    refine ⟨_, rfl,
      { h with
        watcher := hcw.symm ▸ h.watcher
        thread := fun w hw => ?_ }⟩
    obtain ⟨w', hw', rfl⟩ := Option.map_eq_some_iff.mp hw
    obtain ⟨hpath, hstarted, hthread⟩ := h.thread w' hw'
    unfold ConfigWatcher.workerEnds
    split
    · exact ⟨hpath, hstarted, rfl⟩
    · exact ⟨hpath, hstarted, hthread⟩

/-- The worker of such a system never ends the process. -/
theorem Started.run_worker (h : Started env path doc setup t)
    (events : List WorkerEvent) :
    ∃ t', Machine.run (step env) t (events.map WorkerEvent.event) = .ok t' ∧
      Started env path doc setup t' := by
  induction events generalizing t with
  | nil => exact ⟨t, rfl, h⟩
  | cons e events ih =>
    obtain ⟨t₁, hstep, hstarted⟩ := h.step_worker e
    obtain ⟨t', hrun, hdone⟩ := ih hstarted
    exact ⟨t', (Machine.run_cons hstep _).trans hrun, hdone⟩

/-- `Start(path)` with a document that can be loaded. -/
def startedEvents : List Event :=
  operation (.startAt (ascii "log.yml") (documentOf enabledKeys) .ready)

theorem run_startedEvents :
    run plainEnvironment startedEvents =
      .ok
        { system := .started, todo := [], loaded := [documentOf enabledKeys] } := by
  rfl

end Session

end UniServer.Logging
