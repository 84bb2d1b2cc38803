/-
  Logging/WatcherQueue.lean --- `ConfigWatcherImpl` with the event queue of its
  worker.

  `Stop` ends the worker by an event of its own, which is triggered in the queue and
  stays there until a call of `kevent` retrieves it.  The queue belongs to the
  watcher, not to the worker: an event that a worker has not retrieved is met by the
  next one.

  The steps are those of one caller, which calls `Start` and `Stop` in turn, and of
  the worker.  `Stop` is three steps: the flag is cleared, the event triggered, and
  the worker joined.  What the callback does is in `Logging/System`, which this
  machine refines.
-/
import UniServer.Logging.System

set_option autoImplicit false

namespace UniServer.Logging

open UniServer.Foundation

/-- Where the caller is in `Stop`. -/
inductive InStop where
  /-- not in `Stop` -/
  | outside
  /-- behind `started_.exchange(false)` -/
  | triggering
  /-- behind the call of `kevent` -/
  | joining
  deriving DecidableEq, Repr

/-- `ConfigWatcherImpl`, what is pending in its queue, and where its caller is. -/
structure WatcherImpl where
  started : Bool
  worker : Worker
  /-- the event of `EVFILT_USER` -/
  userPending : Bool
  /-- the event of `EVFILT_VNODE` -/
  filePending : Bool
  inStop : InStop
  deriving DecidableEq, Repr

/-- What the call of `kevent` in `Run` comes to. -/
inductive Poll where
  /-- -1 -/
  | failed
  /-- zero -/
  | nothing
  /-- an event with `EV_ERROR` -/
  | error
  /-- an event of `EVFILT_VNODE` -/
  | file
  /-- an event of `EVFILT_USER` -/
  | user
  deriving DecidableEq, Repr

inductive QueueEvent where
  /-- `Start()` -/
  | start
  /-- `Stop()` is called, and clears the flag -/
  | stop
  /-- `Stop()` is called where the flag is not set: it warns and returns -/
  | stopAgain
  /-- `Stop()` triggers its event; the result of the call is not looked at -/
  | trigger (sent : Bool)
  /-- `Stop()` joins the worker -/
  | join
  /-- the file is written to -/
  | change
  /-- the worker's call of `kevent` returns -/
  | poll (p : Poll)
  /-- an exception leaves the loop of the worker -/
  | raised
  deriving DecidableEq, Repr

namespace WatcherImpl

/-- The constructor has returned. -/
def new : WatcherImpl where
  started := false
  worker := .idle
  userPending := false
  filePending := false
  inStop := .outside

/-- A step that can be taken only under this condition. -/
def allow (c : Prop) [Decidable c] (s : WatcherImpl) : Except Unit WatcherImpl :=
  if c then .ok s else .error ()

theorem allow_eq_ok {c : Prop} [Decidable c] {s t : WatcherImpl} :
    allow c s = .ok t ↔ c ∧ t = s := by
  unfold allow
  split
  · rename_i hc
    simp [hc, eq_comm]
  · rename_i hc
    simp [hc]

/-- What the worker does with the result of `kevent`; an event that is retrieved is
no longer pending. -/
def retrieve (s : WatcherImpl) : Poll → Except Unit WatcherImpl
  | .failed => .ok { s with worker := .ended }
  | .nothing => .ok s
  | .error => .ok { s with worker := .ended }
  | .file => allow (s.filePending = true) { s with filePending := false }
  | .user =>
      allow (s.userPending = true)
        { s with userPending := false, worker := .ended }

/-- One step, or an error when it cannot be taken. -/
def step (s : WatcherImpl) : QueueEvent → Except Unit WatcherImpl
  | .start =>
      allow (s.started = false ∧ s.inStop = .outside)
        { s with started := true, worker := .running }
  | .stop =>
      allow (s.started = true ∧ s.inStop = .outside)
        { s with started := false, inStop := .triggering }
  | .stopAgain => allow (s.started = false ∧ s.inStop = .outside) s
  | .trigger sent =>
      allow (s.inStop = .triggering)
        { s with inStop := .joining, userPending := s.userPending || sent }
  | .join =>
      allow (s.inStop = .joining ∧ s.worker ≠ .running)
        { s with inStop := .outside, worker := .idle }
  | .change => .ok { s with filePending := true }
  | .poll p => if s.worker = .running then s.retrieve p else .error ()
  | .raised => allow (s.worker = .running) { s with worker := .ended }

/-- A run of a new watcher. -/
def run (events : List QueueEvent) : Except Unit WatcherImpl :=
  Machine.run step new events

/-- The worker's own ways to end. -/
def EndsItself : QueueEvent → Prop
  | .poll .failed => True
  | .poll .error => True
  | .raised => True
  | _ => False

/-- What a result of `kevent` leads to. -/
theorem retrieve_cases {s t : WatcherImpl} {p : Poll} (h : s.retrieve p = .ok t) :
    (EndsItself (.poll p) ∧ t = { s with worker := .ended }) ∨ t = s ∨
      t = { s with filePending := false } ∨
      (p = .user ∧ s.userPending = true ∧
        t = { s with userPending := false, worker := .ended }) := by
  cases p with
  | failed =>
    cases h
    exact Or.inl ⟨True.intro, rfl⟩
  | nothing =>
    cases h
    exact Or.inr (Or.inl rfl)
  | error =>
    cases h
    exact Or.inl ⟨True.intro, rfl⟩
  | file =>
    obtain ⟨_, rfl⟩ := allow_eq_ok.mp h
    exact Or.inr (Or.inr (Or.inl rfl))
  | user =>
    obtain ⟨hpending, rfl⟩ := allow_eq_ok.mp h
    exact Or.inr (Or.inr (Or.inr ⟨rfl, hpending, rfl⟩))

/-! ## Which `Stop` ends a worker -/

/-- `Stop` was called behind the last `Start`. -/
def Stopped (history : List QueueEvent) : Prop :=
  Machine.Since (fun e => e = .stop) (fun e => e = .start) history

/-- Each worker that is ended by the user event was stopped. -/
def StopsOwn (events : List QueueEvent) : Prop :=
  ∀ before after, events = before ++ .poll .user :: after → Stopped before

/-- `Start` finds no event of an earlier `Stop` in the queue. -/
def StartsClean (s : WatcherImpl) (e : QueueEvent) : Prop :=
  e = .start → s.userPending = false

/-- A user event that is pending, or on its way, is that of this session. -/
def OwnSignal (history : List QueueEvent) (s : WatcherImpl) : Prop :=
  s.userPending = true ∨ s.inStop ≠ .outside → Stopped history

theorem ownSignal_step (before : List QueueEvent) (s : WatcherImpl)
    (e : QueueEvent) (t : WatcherImpl) (hs : OwnSignal before s)
    (hclean : StartsClean s e) (h : step s e = .ok t) :
    OwnSignal (before ++ [e]) t := by
  intro hsignal
  apply Machine.since_snoc.mpr
  cases e with
  | start =>
    obtain ⟨⟨_, hinStop⟩, rfl⟩ := allow_eq_ok.mp h
    rcases hsignal with hpending | hinside
    · exact absurd hpending (by simp [hclean rfl])
    · exact absurd hinStop hinside
  | stop => exact Or.inl rfl
  | stopAgain =>
    obtain ⟨_, rfl⟩ := allow_eq_ok.mp h
    exact Or.inr ⟨hs hsignal, by simp⟩
  | trigger sent =>
    obtain ⟨hinStop, rfl⟩ := allow_eq_ok.mp h
    exact Or.inr ⟨hs (Or.inr (by simp [hinStop])), by simp⟩
  | join =>
    obtain ⟨⟨hinStop, _⟩, rfl⟩ := allow_eq_ok.mp h
    exact Or.inr ⟨hs (Or.inr (by simp [hinStop])), by simp⟩
  | change =>
    cases h
    exact Or.inr ⟨hs hsignal, by simp⟩
  | poll p =>
    rw [step] at h
    split at h
    · refine Or.inr ⟨hs ?_, by simp⟩
      rcases retrieve_cases h with ⟨_, rfl⟩ | rfl | rfl | ⟨_, hpending, rfl⟩
      · exact hsignal
      · exact hsignal
      · exact hsignal
      · exact Or.inl hpending
    · cases h
  | raised =>
    obtain ⟨_, rfl⟩ := allow_eq_ok.mp h
    exact Or.inr ⟨hs hsignal, by simp⟩

theorem ownSignal_run {events : List QueueEvent} {t : WatcherImpl}
    (hclean : Machine.Each step StartsClean new events)
    (hrun : run events = .ok t) : OwnSignal events t := by
  refine Machine.history_invariant OwnSignal ?_ ownSignal_step hclean hrun
  intro hafter
  rcases hafter with hpending | hinside
  · cases hpending
  · exact absurd rfl hinside

/-- The event that a worker retrieves is pending. -/
theorem pending_of_poll_user {s t : WatcherImpl}
    (h : step s (.poll .user) = .ok t) :
    s.userPending = true := by
  rw [step] at h
  split at h
  · exact (allow_eq_ok.mp h).1
  · cases h

theorem stopsOwn_of_clean {events : List QueueEvent} {t : WatcherImpl}
    (hclean : Machine.Each step StartsClean new events)
    (hrun : run events = .ok t) : StopsOwn events := by
  intro before after hsplit
  subst hsplit
  obtain ⟨u, hu, hrest⟩ := (Machine.run_append_eq_ok step).mp hrun
  obtain ⟨u', hstep, _⟩ := (Machine.run_cons_eq_ok step).mp hrest
  exact ownSignal_run hclean.left hu (Or.inl (pending_of_poll_user hstep))

theorem not_stopped_start (history : List QueueEvent) :
    ¬ Stopped (history ++ [.start]) := by
  intro hstopped
  rcases Machine.since_snoc.mp hstopped with hstop | ⟨_, hnot⟩
  · cases hstop
  · exact hnot rfl

/-- From a state in which `Start` would find the event of an earlier `Stop`, it can
be the first thing that the new worker retrieves. -/
theorem not_stopsOwn_of_pending {events : List QueueEvent} {t : WatcherImpl}
    (hrun : run events = .ok t) (hstarted : t.started = false)
    (hinStop : t.inStop = .outside) (hpending : t.userPending = true) :
    ∃ t', run (events ++ [.start, .poll .user]) = .ok t' ∧
      ¬ StopsOwn (events ++ [.start, .poll .user]) := by
  have hstart : step t .start =
      .ok { t with started := true, worker := .running } :=
    if_pos ⟨hstarted, hinStop⟩
  have hpoll : step { t with started := true, worker := .running } (.poll .user) =
      .ok { t with started := true, worker := .ended, userPending := false } := by
    rw [step, if_pos rfl, retrieve]
    exact if_pos hpending
  refine ⟨{ t with started := true, worker := .ended, userPending := false },
    ?_, ?_⟩
  · rw [run, Machine.run_append step hrun, Machine.run_cons hstart,
      Machine.run_cons hpoll, Machine.run_nil]
  · intro hown
    exact not_stopped_start events (hown (events ++ [.start]) [] (by simp))

/-! ## Workers that do not end by themselves -/

/-- What holds while no worker has ended by itself. -/
structure Steady (s : WatcherImpl) : Prop where
  outside : s.started = true → s.inStop = .outside
  running : s.started = true ∨ s.inStop = .triggering → s.worker = .running
  joining : s.userPending = true → s.inStop = .joining ∧ s.worker = .running

theorem steady_step {s t : WatcherImpl} {e : QueueEvent} (hs : s.Steady)
    (hsteady : ¬ EndsItself e) (h : step s e = .ok t) : t.Steady := by
  cases e with
  | start =>
    obtain ⟨⟨_, hinStop⟩, rfl⟩ := allow_eq_ok.mp h
    refine ⟨fun _ => hinStop, fun _ => rfl, fun hpending => ?_⟩
    have hjoining := (hs.joining hpending).1
    rw [hinStop] at hjoining
    cases hjoining
  | stop =>
    obtain ⟨⟨hstarted, hinStop⟩, rfl⟩ := allow_eq_ok.mp h
    refine ⟨fun h => (by cases h), fun _ => hs.running (Or.inl hstarted), ?_⟩
    intro hpending
    have hjoining := (hs.joining hpending).1
    rw [hinStop] at hjoining
    cases hjoining
  | stopAgain =>
    obtain ⟨_, rfl⟩ := allow_eq_ok.mp h
    exact hs
  | trigger sent =>
    obtain ⟨hinStop, rfl⟩ := allow_eq_ok.mp h
    have hrunning := hs.running (Or.inr hinStop)
    refine ⟨fun hstarted => ?_, fun _ => hrunning, fun _ => ⟨rfl, hrunning⟩⟩
    have houtside := hs.outside hstarted
    rw [hinStop] at houtside
    cases houtside
  | join =>
    obtain ⟨⟨hinStop, hended⟩, rfl⟩ := allow_eq_ok.mp h
    refine ⟨fun _ => rfl, ?_, fun hpending => ?_⟩
    · intro hbusy
      rcases hbusy with hstarted | hinside
      · have houtside := hs.outside hstarted
        rw [hinStop] at houtside
        cases houtside
      · cases hinside
    · exact absurd (hs.joining hpending).2 hended
  | change =>
    cases h
    exact ⟨hs.outside, hs.running, hs.joining⟩
  | poll p =>
    rw [step] at h
    split at h
    · rcases retrieve_cases h with ⟨hends, _⟩ | rfl | rfl | ⟨_, hpending, rfl⟩
      · exact absurd hends hsteady
      · exact hs
      · exact ⟨hs.outside, hs.running, hs.joining⟩
      · have hjoining := (hs.joining hpending).1
        refine ⟨hs.outside, ?_, fun h => by cases h⟩
        intro hbusy
        rcases hbusy with hstarted | hinside
        · rw [hs.outside hstarted] at hjoining
          cases hjoining
        · rw [show s.inStop = .triggering from hinside] at hjoining
          cases hjoining
    · cases h
  | raised => exact absurd True.intro hsteady

theorem steady_new : Steady new := by
  refine ⟨fun hstarted => ?_, fun hbusy => ?_, fun hpending => ?_⟩
  · cases hstarted
  · rcases hbusy with hstarted | hinside
    · cases hstarted
    · cases hinside
  · cases hpending

/-- Where no worker ends by itself, every `Start` finds the queue clean. -/
theorem startsClean_of_steady {events : List QueueEvent} {t : WatcherImpl}
    (hsteady : Machine.Each step (fun _ e => ¬ EndsItself e) new events)
    (hrun : run events = .ok t) : Machine.Each step StartsClean new events := by
  intro before e after u hsplit hu hstart
  subst hsplit hstart
  have hsteadyBefore : u.Steady := by
    refine Machine.history_invariant (fun _ s => s.Steady) ?_ ?_ hsteady.left hu
    · exact steady_new
    · intro _ s e t hs hends hstep
      exact steady_step hs hends hstep
  obtain ⟨u', hstep⟩ := (Machine.run_isOk_iff_each step).mp ⟨t, hrun⟩ before
    .start after u rfl hu
  have houtside : u.inStop = .outside := (allow_eq_ok.mp hstep).1.2
  apply Bool.eq_false_iff.mpr
  intro hpending
  have hjoining := (hsteadyBefore.joining hpending).1
  rw [houtside] at hjoining
  cases hjoining

/-! ## Runs -/

/-- In a run in which no `Start` finds the event of an earlier `Stop` pending, each
worker that is ended by the user event was stopped.  Behind a run after which
`Start` would find one, the next worker can be ended by it. -/
theorem stopsOwn_of_startsClean {events : List QueueEvent} {t : WatcherImpl}
    (hrun : run events = .ok t) :
    (Machine.Each step StartsClean new events → StopsOwn events) ∧
    (t.started = false → t.inStop = .outside → t.userPending = true →
      ∃ t', run (events ++ [.start, .poll .user]) = .ok t' ∧
        ¬ StopsOwn (events ++ [.start, .poll .user])) :=
  ⟨fun hclean => stopsOwn_of_clean hclean hrun, not_stopsOwn_of_pending hrun⟩

/-- A session that is stopped, and ends by that. -/
def stoppedSession : List QueueEvent :=
  [.start, .change, .poll .file, .stop, .trigger true, .poll .user, .join]

theorem stopsOwn_stoppedSession : StopsOwn stoppedSession := by
  have hrun : run stoppedSession = .ok new := rfl
  refine (stopsOwn_of_startsClean hrun).1 (startsClean_of_steady ?_ hrun)
  intro before e after _ hsplit _
  have hmem : e ∈ stoppedSession := by
    rw [hsplit]
    exact List.mem_append_right _ List.mem_cons_self
  simp only [stoppedSession, List.mem_cons, List.not_mem_nil, or_false] at hmem
  rcases hmem with rfl | rfl | rfl | rfl | rfl | rfl | rfl <;> exact id

/-- The queue fails under a worker, and the event of the `Stop` behind it stays. -/
def failedSession : List QueueEvent :=
  [.start, .poll .failed, .stop, .trigger true, .join]

/-- That event ends the worker of the next session. -/
theorem stop_signal_left_behind :
    ∃ events t, run events = .ok t ∧ ¬ StopsOwn events := by
  have hrun : run failedSession = .ok { new with userPending := true } := rfl
  obtain ⟨t, ht, hnot⟩ := not_stopsOwn_of_pending hrun rfl rfl rfl
  exact ⟨_, t, ht, hnot⟩

/-! ## The watcher without its queue -/

/-- The watcher as the system sees it: it is started until `Stop` has joined its
worker. -/
def view (path : Bytes) (s : WatcherImpl) : ConfigWatcher where
  path := path
  started := s.started || decide (s.inStop ≠ .outside)
  worker := s.worker

/-- What the system lets a watcher do. -/
inductive Move where
  | start
  | stop
  | workerEnds
  deriving DecidableEq, Repr

def move (w : ConfigWatcher) : Move → Run ConfigWatcher
  | .start => w.start
  | .stop => .ok w.stop
  | .workerEnds => .ok w.workerEnds

/-- What the system sees of an event: `Stop` when it returns, and a worker when it
leaves its loop. -/
def seen : QueueEvent → Option Move
  | .start => some .start
  | .stop => none
  | .stopAgain => some .stop
  | .trigger _ => none
  | .join => some .stop
  | .change => none
  | .poll .failed => some .workerEnds
  | .poll .nothing => none
  | .poll .error => some .workerEnds
  | .poll .file => none
  | .poll .user => some .workerEnds
  | .raised => some .workerEnds

/-- Between `Stop` and `Start` there is no worker. -/
structure Orderly (s : WatcherImpl) : Prop where
  outside : s.started = true → s.inStop = .outside
  idle : s.started = false → s.inStop = .outside → s.worker = .idle

theorem orderly_step (s : WatcherImpl) (e : QueueEvent) (t : WatcherImpl)
    (hs : s.Orderly) (h : step s e = .ok t) : t.Orderly := by
  cases e with
  | start =>
    obtain ⟨⟨_, hinStop⟩, rfl⟩ := allow_eq_ok.mp h
    exact ⟨fun _ => hinStop, fun h => by cases h⟩
  | stop =>
    obtain ⟨_, rfl⟩ := allow_eq_ok.mp h
    exact ⟨fun h => (by cases h), fun _ h => by cases h⟩
  | stopAgain =>
    obtain ⟨_, rfl⟩ := allow_eq_ok.mp h
    exact hs
  | trigger sent =>
    obtain ⟨hinStop, rfl⟩ := allow_eq_ok.mp h
    refine ⟨fun hstarted => ?_, fun _ h => by cases h⟩
    have houtside := hs.outside hstarted
    rw [hinStop] at houtside
    cases houtside
  | join =>
    obtain ⟨_, rfl⟩ := allow_eq_ok.mp h
    exact ⟨fun _ => rfl, fun _ _ => rfl⟩
  | change =>
    cases h
    exact ⟨hs.outside, hs.idle⟩
  | poll p =>
    rw [step] at h
    split at h
    · rename_i hrunning
      have hbusy : s.started = false → s.inStop ≠ .outside := by
        intro hstarted hinStop
        rw [hs.idle hstarted hinStop] at hrunning
        cases hrunning
      rcases retrieve_cases h with ⟨_, rfl⟩ | rfl | rfl | ⟨_, _, rfl⟩
      · exact ⟨hs.outside, fun hfree houtside => absurd houtside (hbusy hfree)⟩
      · exact hs
      · exact ⟨hs.outside, hs.idle⟩
      · exact ⟨hs.outside, fun hfree houtside => absurd houtside (hbusy hfree)⟩
    · cases h
  | raised =>
    obtain ⟨hrunning, rfl⟩ := allow_eq_ok.mp h
    refine ⟨hs.outside, fun hstarted hinStop => ?_⟩
    rw [hs.idle hstarted hinStop] at hrunning
    cases hrunning

theorem orderly_new : Orderly new :=
  ⟨fun _ => rfl, fun _ _ => rfl⟩

/-- A worker that leaves its loop is seen to end. -/
theorem view_workerEnds (path : Bytes) {s : WatcherImpl}
    (hrunning : s.worker = .running) (pending : Bool) :
    Machine.run move (view path s) [.workerEnds] =
      .ok (view path { s with userPending := pending, worker := .ended }) := by
  have hends : (view path s).workerEnds =
      view path { s with userPending := pending, worker := .ended } := by
    rw [ConfigWatcher.workerEnds,
      if_pos (show (view path s).worker = .running from hrunning)]
    rfl
  rw [← hends]
  exact Machine.run_cons rfl []

/-- What the worker does with the result of `kevent`, as the system sees it. -/
theorem view_retrieve (path : Bytes) {s t : WatcherImpl} {p : Poll}
    (hrunning : s.worker = .running) (h : s.retrieve p = .ok t) :
    Machine.run move (view path s) (seen (.poll p)).toList = .ok (view path t) := by
  cases p with
  | failed =>
    cases h
    exact view_workerEnds path hrunning s.userPending
  | nothing =>
    cases h
    rfl
  | error =>
    cases h
    exact view_workerEnds path hrunning s.userPending
  | file =>
    obtain ⟨_, rfl⟩ := allow_eq_ok.mp h
    rfl
  | user =>
    obtain ⟨_, rfl⟩ := allow_eq_ok.mp h
    exact view_workerEnds path hrunning false

/-- A step that the system sees is the move of the watcher that it knows, and one
that it does not see leaves that watcher alone. -/
theorem view_step (path : Bytes) (s : WatcherImpl) (e : QueueEvent)
    (t : WatcherImpl) (hs : s.Orderly) (h : step s e = .ok t) :
    Machine.run move (view path s) (seen e).toList = .ok (view path t) := by
  cases e with
  | start =>
    obtain ⟨⟨hstarted, hinStop⟩, rfl⟩ := allow_eq_ok.mp h
    have hidle : ¬ (view path s).worker.joinable = true := by
      rw [view, hs.idle hstarted hinStop]
      exact Bool.false_ne_true
    refine Machine.run_cons ?_ []
    rw [move, ConfigWatcher.start, if_neg hidle]
    rfl
  | stop =>
    obtain ⟨⟨hstarted, _⟩, rfl⟩ := allow_eq_ok.mp h
    simp [seen, view, hstarted]
  | stopAgain =>
    obtain ⟨⟨hstarted, hinStop⟩, rfl⟩ := allow_eq_ok.mp h
    refine Machine.run_cons ?_ []
    have hstopped : ¬ (view path t).started = true := by
      simp [view, hstarted, hinStop]
    rw [move, ConfigWatcher.stop, if_neg hstopped]
  | trigger sent =>
    obtain ⟨hinStop, rfl⟩ := allow_eq_ok.mp h
    simp [seen, view, hinStop]
  | join =>
    obtain ⟨⟨hinStop, _⟩, rfl⟩ := allow_eq_ok.mp h
    have hstarted : s.started = false := by
      apply Bool.eq_false_iff.mpr
      intro hstarted
      rw [hs.outside hstarted] at hinStop
      cases hinStop
    have hinside : (view path s).started = true := by simp [view, hinStop]
    refine Machine.run_cons ?_ []
    rw [move, ConfigWatcher.stop, if_pos hinside]
    simp [view, hstarted]
  | change =>
    cases h
    rfl
  | poll p =>
    rw [step] at h
    split at h
    · rename_i hrunning
      exact view_retrieve path hrunning h
    · cases h
  | raised =>
    obtain ⟨hrunning, rfl⟩ := allow_eq_ok.mp h
    exact view_workerEnds path hrunning s.userPending

/-- A run of the watcher with its queue, seen from outside, is a run of the watcher
that the system knows: each `Start`, each `Stop` and each worker that leaves its
loop is a move of that, in the same order, and it makes no others. -/
theorem view_run (path : Bytes) {events : List QueueEvent} {t : WatcherImpl}
    (hrun : run events = .ok t) :
    ConfigWatcher.new path .ready = .ok (view path new) ∧
      Machine.run move (view path new) (events.filterMap seen) =
        .ok (view path t) :=
  ⟨rfl, Machine.run_filterMap (view path) seen Orderly orderly_step
    (view_step path) orderly_new hrun⟩

/-- Behind a worker that has failed, the next one is ended by the event that was
left, and is seen to end by itself; the system learns of it by its `Stop`. -/
theorem view_run_failedSession :
    ∃ t,
      run (failedSession ++ [.stopAgain, .start, .change, .poll .user, .stop]) =
        .ok t ∧
      Machine.run move (view (ascii "log.yml") new)
          [.start, .workerEnds, .stop, .stop, .start, .workerEnds] =
        .ok (view (ascii "log.yml") t) ∧
      (view (ascii "log.yml") t).worker = .ended := by
  obtain ⟨t, hrun, hended⟩ : ∃ t,
      run (failedSession ++ [.stopAgain, .start, .change, .poll .user, .stop]) =
        .ok t ∧ t.worker = .ended := ⟨_, rfl, rfl⟩
  exact ⟨t, hrun, (view_run (ascii "log.yml") hrun).2, hended⟩

end WatcherImpl

end UniServer.Logging
