/-
  Main.lean --- the program: `main` of main/server.cc.

  It starts the log, registers one handler and listens over TLS.  On its way it logs
  what it does, while the worker of the log watches the configuration.  `main_ends`
  says how it goes, `main_returns` and `main_serves` what the process holds then,
  and `uni_answers` what every client reads.

  The handler draws an id of its own; the id and the time are given with it.
  Allocations succeed, and so does what the router needs for its hash.
-/
import UniServer.Http.Exchange
import UniServer.Http.ServerLog
import UniServer.Logging.History

set_option autoImplicit false

namespace UniServer.Main

open UniServer.Foundation UniServer.Common UniServer.Http UniServer.Routing
open UniServer.Logging

/-! ## The source -/

/-- The path of the handler. -/
def uni : Bytes := ascii "/uni"

/-- What the handler answers with. -/
def uniResult : Json :=
  .object
    [(ascii "Message",
      .string (ascii "The request was received and successfully processed..."))]

/-- The handler, with what its call of `makeResp` draws. -/
def uniHandler (id : Bytes) (now : Int) : Invoke Unit :=
  fun _ _ => .ok (makeResp .success id now uniResult)

/-- `argv[1]`, `argv[2]` and `argv[3]`. -/
structure Arguments where
  cert : Bytes
  key : Bytes
  config : Bytes

/-- The arguments, unless `argc < 4`. -/
def arguments : List Bytes → Option Arguments
  | _ :: cert :: key :: config :: _ =>
      some { cert := cert, key := key, config := config }
  | _ => none

/-- What the calls of `main` come to, and what the worker of the log does
meanwhile. -/
structure Surroundings where
  /-- the document under the path of the configuration -/
  config : Document
  watcher : Setup
  tls : TlsSetup
  /-- the code of the error of `tls` -/
  code : Nat
  resolved : Except Bytes (List Candidate)
  listens : Except SysError Unit
  /-- for each call of `LOG`, in order -/
  moments : Nat → Moment
  /-- behind the last of them -/
  last : List Session.WorkerEvent

namespace Surroundings

def tlsCall (s : Surroundings) (args : Arguments) : TlsCall where
  cert := args.cert
  key := args.key
  code := s.code
  setup := s.tls

/-- `server.listen()`, with the arguments that are defaults. -/
def listenCall (s : Surroundings) : ListenCall where
  resolved := s.resolved
  listens := s.listens

end Surroundings

/-- `main` behind `LogSystem::Start`. -/
def body (args : Arguments) (s : Surroundings) (ds : Descriptors) (ns : Nodes) :
    Logged (Servers × RouterManager Unit) := do
  let manager ← Logged.init none
  let (_, manager) ← Logged.register .get manager uni (some ())
  let w ← Logged.constructTls (Servers.start ds ns) (s.tlsCall args)
  let w ← Logged.listen w 0 s.listenCall
  if w.serving.isSome then
    return (w, manager)
  else
    -- `listen` has returned false, and `server` goes out of scope
    let w ← Logged.destroy w 0
    return (w, manager)

/-- How `main` goes. -/
inductive MainEnd where
  | returned (code : Int) (w : Servers) (log : ProcessLog)
  /-- by `std::terminate` -/
  | terminated
  /-- `listen` does not return -/
  | serving (w : Servers) (manager : RouterManager Unit) (log : ProcessLog)

/-- What happens to the log: what `LogSystem::Start` returns is ignored. -/
def history (args : Arguments) (s : Surroundings) (ds : Descriptors) (ns : Nodes) :
    List JournalEvent :=
  History.events args.config s.config s.watcher s.moments (body args s ds ns).trace
    s.last

variable (env : Environment) (json : Nlohmann)
  (format : Bytes → List FmtArg → Except Bytes Bytes)

/-- `main` -/
def main (argv : List Bytes) (s : Surroundings) (ds : Descriptors) (ns : Nodes) :
    MainEnd :=
  match arguments argv with
  | none => .returned 1 (Servers.start ds ns) .blank
  | some args =>
    match ProcessLog.run env json format (history args s ds ns),
      (body args s ds ns).result with
    | .ok log, .ok (w, manager) =>
        if w.serving.isSome then .serving w manager log else .returned 0 w log
    -- a record cannot be written, or nobody catches what the constructor throws
    | _, _ => .terminated

/-! ## The program without its log -/

section

variable {env} {json} {format} {argv : List Bytes} {args : Arguments}
  {s : Surroundings} {ds : Descriptors} {ns : Nodes}

theorem arguments_eq_none_iff : arguments argv = none ↔ argv.length < 4 := by
  rcases argv with _ | ⟨_, _ | ⟨_, _ | ⟨_, _ | ⟨config, rest⟩⟩⟩⟩
  · simp [arguments]
  · simp [arguments]
  · simp [arguments]
  · simp [arguments]
  · refine iff_of_false (by simp [arguments]) ?_
    simp only [List.length_cons]
    omega

/-- The constructor of `HttpsServer` does not throw. -/
structure Loads (setup : TlsSetup) : Prop where
  created : setup.created = true
  certificate : 0 < setup.certificate
  key : 0 < setup.key
  agrees : setup.agrees ≠ 0

/-- The object that `main` makes. -/
def made (ds : Descriptors) (ns : Nodes) : Servers where
  objects := [some { ctx := some 0 }]
  descriptors := ds
  nodes := ns
  contexts := { created := 1, freed := [] }

theorem loads_loaded : Loads Servers.loaded :=
  ⟨rfl, by decide, by decide, by decide⟩

theorem construct_loads {setup : TlsSetup} (h : Loads setup) :
    HttpsServer.construct setup { created := 0, freed := [] } =
      (.ok { ctx := some 0 }, { created := 1, freed := [] }) := by
  simp only [HttpsServer.construct, h.created, Bool.not_true, Bool.false_eq_true,
    if_false, if_neg (Int.not_le.mpr h.certificate), if_neg (Int.not_le.mpr h.key),
    if_neg h.agrees]

theorem constructTls_loads {setup : TlsSetup} (h : Loads setup) :
    (Servers.start ds ns).constructTls setup = made ds ns := by
  have hmade := construct_loads h
  unfold Servers.constructTls
  rw [Servers.start, hmade]
  rfl

theorem construct_throws {setup : TlsSetup} (h : ¬ Loads setup) (ctxs : Contexts) :
    ∃ e, (HttpsServer.construct setup ctxs).1 = .error e := by
  unfold HttpsServer.construct
  split
  · exact ⟨_, rfl⟩
  · rename_i hcreated
    split
    · exact ⟨_, rfl⟩
    · rename_i hcertificate
      split
      · exact ⟨_, rfl⟩
      · rename_i hkey
        split
        · exact ⟨_, rfl⟩
        · rename_i hagrees
          exact absurd ⟨by simpa using hcreated, Int.not_le.mp hcertificate,
            Int.not_le.mp hkey, hagrees⟩ h

/-- The program behind its call of `listen`. -/
def listened (s : Surroundings) (ds : Descriptors) (ns : Nodes) : Servers :=
  (made ds ns).listen 0 { ctx := some 0 } s.listenCall.erase

theorem step_listened :
    Servers.step (made ds ns) (.listen 0 s.listenCall.erase) =
      .ok (listened s ds ns) :=
  rfl

/-- `listen` is in its loop when everything that it calls succeeds. -/
theorem serving_listened :
    (listened s ds ns).serving.isSome = true ↔
      (HttpServer.buildSocket s.listenCall.erase.resolved {} ds ns).ret = true ∧
        s.listens.isOk = true := by
  have hinternal : HttpServer.listenInternal kMaxConnections kReceptionBufSize
      s.listens.isOk = s.listens.isOk := rfl
  have hserving : (listened s ds ns).serving =
      if (HttpServer.buildSocket s.listenCall.erase.resolved {} ds ns).ret &&
          s.listens.isOk then
        some (0, (kReceptionBufSize : Int)) else none := by
    rw [← hinternal]
    rfl
  rw [hserving, ← Bool.and_eq_true_iff]
  split
  · rename_i hall
    exact iff_of_true rfl hall
  · rename_i hnot
    exact iff_of_false (fun h => (by cases h)) hnot

/-- The program behind the destructor. -/
def left (s : Surroundings) (ds : Descriptors) (ns : Nodes) : Servers :=
  (listened s ds ns).destroy 0
    { http :=
        (HttpServer.buildSocket s.listenCall.erase.resolved {} ds ns).server,
      ctx := some 0 }

theorem step_left (hidle : (listened s ds ns).serving = none) :
    Servers.step (listened s ds ns) (.destroy 0) = .ok (left s ds ns) := by
  unfold Servers.step
  rw [hidle]
  rfl

/-- The calls of `main` when it makes a server. -/
theorem run_made (hloads : Loads s.tls) :
    Servers.run (Servers.start ds ns)
        [.constructTls s.tls, .listen 0 s.listenCall.erase] =
        .ok (listened s ds ns) ∧
      ((listened s ds ns).serving = none →
        Servers.run (Servers.start ds ns)
            [.constructTls s.tls, .listen 0 s.listenCall.erase, .destroy 0] =
          .ok (left s ds ns)) := by
  have hfirst : Servers.step (Servers.start ds ns) (.constructTls s.tls) =
      .ok (made ds ns) := by
    rw [← constructTls_loads hloads]
    rfl
  refine ⟨(Machine.run_cons hfirst _).trans rfl, fun hidle => ?_⟩
  exact (Machine.run_cons hfirst _).trans
    ((Machine.run_cons step_listened _).trans
      ((Machine.run_cons (step_left hidle) _).trans rfl))

/-- The router of `main`. -/
def router : Router Unit :=
  ⟨(RoutingTree.empty.add .get uni (some ())).after⟩

theorem result_register_uni :
    (Logged.register .get RouterManager.init uni (some ())).result =
      .ok ((RoutingTree.empty.add .get uni (some ())).ok, some router) := by
  rw [Logged.result_register]
  rfl

/-- Where the constructor throws, so does the program. -/
theorem result_body_throws (hloads : ¬ Loads s.tls) :
    ∃ msg, (body args s ds ns).result = .error (.throw (.runtimeError msg)) := by
  obtain ⟨msg, hthrown⟩ := construct_throws hloads (Servers.start ds ns).contexts
  have hconstruct : (Logged.constructTls (Servers.start ds ns)
      (s.tlsCall args)).result = .error (.throw (.runtimeError msg)) := by
    rw [Logged.result_constructTls]
    change (HttpsServer.construct (s.tlsCall args).setup _).1 = _ at hthrown
    cases hmade : HttpsServer.construct (s.tlsCall args).setup
        (Servers.start ds ns).contexts with
    | mk result ctxs =>
      rw [hmade] at hthrown
      cases hthrown
      rfl
  refine ⟨msg, ?_⟩
  simp only [body, Traced.result_bind, Logged.result_init, Run.ok_bind,
    result_register_uni, hconstruct, Run.error_bind]

/-- Where it does not, there is a server that is in its loop or was destroyed. -/
theorem result_body_loads (hloads : Loads s.tls) :
    (body args s ds ns).result =
      .ok (if (listened s ds ns).serving.isSome then listened s ds ns
        else left s ds ns, some router) := by
  have hconstruct : (Logged.constructTls (Servers.start ds ns)
      (s.tlsCall args)).result = .ok (made ds ns) := by
    have hmade := construct_loads hloads
    rw [Logged.result_constructTls]
    change _ = Except.ok (made ds ns)
    rw [← constructTls_loads hloads]
    simp only [Surroundings.tlsCall, Servers.start, hmade]
  have hlisten := Logged.result_listen (@step_listened s ds ns)
  simp only [body, Traced.result_bind, Logged.result_init, Run.ok_bind,
    result_register_uni, hconstruct, hlisten]
  cases hserving : (listened s ds ns).serving with
  | some loop =>
    simp only [Option.isSome_some, if_true]
    rfl
  | none =>
    have hdestroy := Logged.result_destroy (step_left hserving)
    simp only [Option.isSome_none, Bool.false_eq_true, if_false,
      Traced.result_bind, hdestroy, Run.ok_bind]
    rfl

/-! ## How it goes -/

/-- What is logged of the surroundings is UTF-8. -/
structure Surroundings.Utf8 (s : Surroundings) (args : Arguments) : Prop where
  cert : validUtf8 args.cert = true
  key : validUtf8 args.key = true
  error : validUtf8 s.tls.error = true
  listen : s.listenCall.Utf8
  moments : ∀ k, (s.moments k).Utf8

theorem each_body (h : s.Utf8 args) :
    (body args s ds ns).Each LogCall.Utf8 := by
  have huni : validUtf8 uni = true := by decide +kernel
  unfold body
  refine Traced.each_bind.mpr ⟨Logged.each_init none, fun manager _ => ?_⟩
  refine Traced.each_bind.mpr
    ⟨Logged.each_register huni .get manager (some ()), fun registered _ => ?_⟩
  refine Traced.each_bind.mpr
    ⟨Logged.each_constructTls h.cert h.key h.error _, fun w _ => ?_⟩
  refine Traced.each_bind.mpr ⟨Logged.each_listen h.listen w 0, fun w _ => ?_⟩
  split
  · exact Traced.each_pure _
  · exact Traced.each_bind.mpr
      ⟨Logged.each_destroy w 0, fun _ _ => Traced.each_pure _⟩

variable (env) (json) (format) in
/-- Of all that `main` logs, with the configurations that are in force when it does,
no sink for JSON is given a record that is not UTF-8. -/
def Quiet (args : Arguments) (s : Surroundings) (ds : Descriptors) (ns : Nodes) :
    Prop :=
  Machine.Each (Journal.step env json format) (Journal.Writable format) .blank
    (history args s ds ns)

theorem quiet_of_utf8 (h : s.Utf8 args) :
    Quiet env json format args s ds ns :=
  History.each_writable h.moments (each_body h)

/-- How `main` goes with its arguments. -/
theorem main_cases (hargs : arguments argv = some args) :
    (¬ (Loads s.tls ∧ Quiet env json format args s ds ns) ∧
        main env json format argv s ds ns = .terminated) ∨
      (Loads s.tls ∧ Quiet env json format args s ds ns) ∧
        ∃ log, ProcessLog.run env json format (history args s ds ns) = .ok log ∧
          ((listened s ds ns).serving.isSome = true ∧
              main env json format argv s ds ns =
                .serving (listened s ds ns) (some router) log ∨
            (listened s ds ns).serving = none ∧
              main env json format argv s ds ns =
                .returned 0 (left s ds ns) log) := by
  unfold main Quiet
  simp only [hargs]
  rw [history, ← History.run_isOk_iff]
  cases hlog : ProcessLog.run env json format (History.events args.config s.config
      s.watcher s.moments (body args s ds ns).trace s.last) with
  | error e => exact Or.inl ⟨fun h => (by obtain ⟨_, _, ⟨⟩⟩ := h), rfl⟩
  | ok log =>
    by_cases hloads : Loads s.tls
    · refine Or.inr ⟨⟨hloads, log, rfl⟩, log, rfl, ?_⟩
      simp only [result_body_loads hloads]
      cases hserving : (listened s ds ns).serving with
      | some loop => exact Or.inl ⟨rfl, by simp [hserving]⟩
      | none =>
        have hleft : (left s ds ns).serving = none := hserving
        exact Or.inr ⟨rfl, by simp [hleft]⟩
    · obtain ⟨msg, hthrows⟩ := @result_body_throws args s ds ns hloads
      refine Or.inl ⟨fun h => hloads h.1, ?_⟩
      simp only [hthrows]

/-- Where nothing ends it, `main` serves or returns as `listen` says. -/
theorem main_goes (hargs : arguments argv = some args)
    (hgoes : Loads s.tls ∧ Quiet env json format args s ds ns) :
    ∃ log, main env json format argv s ds ns =
      if (listened s ds ns).serving.isSome then
        .serving (listened s ds ns) (some router) log
      else .returned 0 (left s ds ns) log := by
  rcases @main_cases env json format argv args s ds ns hargs with
    ⟨hnot, _⟩ | ⟨_, log, _, ⟨hserving, hmain⟩ | ⟨hidle, hmain⟩⟩
  · exact absurd hgoes hnot
  · exact ⟨log, by rw [hmain, if_pos hserving]⟩
  · exact ⟨log, by simp [hmain, hidle]⟩

theorem main_usage (h : argv.length < 4) :
    main env json format argv s ds ns =
      .returned 1 (Servers.start ds ns) .blank := by
  unfold main
  rw [arguments_eq_none_iff.mpr h]

/-- What decides how `main` goes.  Without its arguments it returns at once.  With
them it is terminated exactly when the context cannot be made or the log is given a
record that it cannot write, which does not happen with texts that are UTF-8;
otherwise it serves when it has a socket and can listen, and returns when not. -/
theorem main_ends (env : Environment) (json : Nlohmann)
    (format : Bytes → List FmtArg → Except Bytes Bytes) (argv : List Bytes)
    (s : Surroundings) (ds : Descriptors) (ns : Nodes) :
    (arguments argv = none ↔ argv.length < 4) ∧
    (argv.length < 4 → main env json format argv s ds ns =
      .returned 1 (Servers.start ds ns) .blank) ∧
    ∀ args, arguments argv = some args →
      (main env json format argv s ds ns = .terminated ↔
        ¬ (Loads s.tls ∧ Quiet env json format args s ds ns)) ∧
      ((∃ w manager log,
          main env json format argv s ds ns = .serving w manager log) ↔
        (Loads s.tls ∧ Quiet env json format args s ds ns) ∧
          (HttpServer.buildSocket s.listenCall.erase.resolved {} ds ns).ret = true ∧
            s.listens.isOk = true) ∧
      ((∃ w log, main env json format argv s ds ns = .returned 0 w log) ↔
        (Loads s.tls ∧ Quiet env json format args s ds ns) ∧
          ¬ ((HttpServer.buildSocket s.listenCall.erase.resolved {} ds ns).ret =
              true ∧ s.listens.isOk = true)) ∧
      (s.Utf8 args → Quiet env json format args s ds ns) := by
  refine ⟨arguments_eq_none_iff, main_usage, fun args hargs => ?_⟩
  rw [← serving_listened]
  rcases @main_cases env json format argv args s ds ns hargs with
    ⟨hnot, hmain⟩ | ⟨hgoes, log, _, ⟨hserving, hmain⟩ | ⟨hidle, hmain⟩⟩
  · exact ⟨by simp [hmain, hnot], by simp [hmain, hnot], by simp [hmain, hnot],
      quiet_of_utf8⟩
  · exact ⟨by simp [hmain, hgoes], by simp [hmain, hgoes, hserving],
      by simp [hmain, hgoes, hserving], quiet_of_utf8⟩
  · exact ⟨by simp [hmain, hgoes], by simp [hmain, hgoes, hidle],
      by simp [hmain, hgoes, hidle], quiet_of_utf8⟩

/-- The worker does nothing meanwhile. -/
def quietMoment : Moment where
  before := []
  between := []
  loc := { fileName := ascii "https_server.cc", line := 72, column := 5 }
  timepoint := ascii "2025-01-01 00:00:00.000"
  outcome _ := { writes := true, flushes := true }

/-- A machine on which no address can be resolved, and a log that writes JSON. -/
def unresolved : Surroundings where
  config := documentOf Journal.fileKeys
  watcher := .ready
  tls := Servers.loaded
  code := 0
  resolved := .error (ascii "nodename nor servname provided, or not known")
  listens := .ok ()
  moments _ := quietMoment
  last := [.ends]

theorem quietMoment_utf8 : quietMoment.Utf8 where
  fileName := by decide +kernel
  timepoint := by decide +kernel

theorem unresolved_utf8 : unresolved.Utf8 ⟨[], [], ascii "log.yml"⟩ where
  cert := rfl
  key := rfl
  error := rfl
  listen :=
    { host := by decide +kernel
      port := by decide +kernel
      resolved := by
        rintro what ⟨⟩
        decide +kernel
      servinfo := fun _ h => (by cases h)
      listens := fun _ h => (by cases h) }
  moments _ := quietMoment_utf8

/-- The context can be made, but not the record that shows the path of the
certificate. -/
theorem main_ends_unwritable :
    Loads unresolved.tls ∧
      main plainEnvironment writesCompact plainFormat
        [[], [255], [], ascii "log.yml"] unresolved HttpServer.oneSocket
        HttpServer.untouched = .terminated ∧
      ¬ Quiet plainEnvironment writesCompact plainFormat
        { cert := [255], key := [], config := ascii "log.yml" } unresolved
        HttpServer.oneSocket HttpServer.untouched := by
  have hmain : main plainEnvironment writesCompact plainFormat
      [[], [255], [], ascii "log.yml"] unresolved HttpServer.oneSocket
      HttpServer.untouched = .terminated := by
    with_unfolding_all rfl
  obtain ⟨hends, _⟩ := (main_ends plainEnvironment writesCompact plainFormat
    [[], [255], [], ascii "log.yml"] unresolved HttpServer.oneSocket
    HttpServer.untouched).2.2 _ rfl
  exact ⟨loads_loaded, hmain, fun hquiet => hends.mp hmain ⟨loads_loaded, hquiet⟩⟩

/-- When `main` returns, its server has left nothing: what it has opened is closed,
what was open is untouched, and its context is freed.  What is left is the log that
it has started, if it has; the exit of the process joins the thread of its watcher
and closes the two descriptors. -/
theorem main_returns (hnodup : ds.fds.Nodup) {code : Int} {w : Servers}
    {log : ProcessLog}
    (h : main env json format argv s ds ns = .returned code w log) :
    (w.descriptors.fds.Perm ds.fds ∧
      (∀ socket ∈ ds.sockets, socket ∈ w.descriptors.sockets) ∧
      (∃ opens closes, w.descriptors.opened = ds.opened ++ opens ∧
        w.descriptors.closed = ds.closed ++ closes ∧ opens.Perm closes) ∧
      (List.range w.contexts.created).Perm w.contexts.freed) ∧
    (code = 1 ∧ log = .blank ∨
      code = 0 ∧ ∃ args, arguments argv = some args ∧
        log.Left env json args.config s.config s.watcher) ∧
    ∃ l, log.watched.exit = .ok l ∧ l.Holds [] := by
  cases hargs : arguments argv with
  | none =>
    rw [main_usage (arguments_eq_none_iff.mp hargs)] at h
    cases h
    exact ⟨⟨.refl _, fun _ hmem => hmem,
      ⟨[], [], (List.append_nil _).symm, (List.append_nil _).symm, .refl _⟩,
      .refl _⟩, Or.inl ⟨rfl, rfl⟩, {}, rfl, .refl []⟩
  | some args =>
    rcases @main_cases env json format argv args s ds ns hargs with
      ⟨_, hmain⟩ | ⟨hgoes, log', hlog, ⟨_, hmain⟩ | ⟨hidle, hmain⟩⟩
    · rw [hmain] at h
      cases h
    · rw [hmain] at h
      cases h
    · rw [hmain] at h
      cases h
      have hleft := History.run_left hlog
      have hrun := (@run_made s ds ns hgoes.1).2 hidle
      have hholds := Servers.holds_of_run hnodup hrun
      have hheld : (left s ds ns).held = [] := rfl
      have hsockets := hholds.sockets
      obtain ⟨opens, closes, hopened, hclosed, hbalanced⟩ := hholds.books
      rw [hheld, List.append_nil] at hsockets
      rw [Reconciled, hheld, List.append_nil] at hbalanced
      exact ⟨⟨hsockets, hholds.untouched,
        ⟨opens, closes, hopened, hclosed, hbalanced⟩, .refl _⟩,
        Or.inr ⟨rfl, args, rfl, hleft⟩, hleft.exit⟩

/-- `main` with its arguments there, where it has to return. -/
theorem main_returns_unresolved :
    ∃ w log, main plainEnvironment writesCompact plainFormat
        [[], [], [], ascii "log.yml"] unresolved HttpServer.oneSocket
        HttpServer.untouched = .returned 0 w log ∧
      w.descriptors.fds.Perm [3] ∧ log.watched.own.isSome = true ∧
      ∃ l, log.watched.exit = .ok l ∧ l.Holds [] := by
  obtain ⟨log, hmain⟩ := @main_goes plainEnvironment writesCompact plainFormat
    [[], [], [], ascii "log.yml"] _ unresolved HttpServer.oneSocket
    HttpServer.untouched rfl ⟨loads_loaded, quiet_of_utf8 unresolved_utf8⟩
  change main _ _ _ _ _ _ _ = .returned 0 _ log at hmain
  obtain ⟨⟨hsockets, _⟩, hlog, hexit⟩ := main_returns Servers.oneSocket_once hmain
  refine ⟨_, log, hmain, hsockets, ?_, hexit⟩
  obtain ⟨⟨⟩, _⟩ | ⟨_, args, hargs, hleft⟩ := hlog
  cases hargs
  rw [hleft.kept.own, hleft.same]
  exact hleft.started.watcher.mpr ⟨⟨true, rfl⟩, rfl⟩

end

/-! ## What it serves -/

/-- A request for the handler: for `GET`, and with this path behind a text without a
slash. -/
def UniRouted (mtd : Method) (path : Bytes) : Prop :=
  mtd = .get ∧ ∃ lead, (47 : Byte) ∉ lead ∧ path = lead ++ uni

theorem uni_eq : uni = slash ++ ascii "uni" := rfl

/-- What stands in front of the first slash does not matter. -/
theorem routeKey_uni {lead : Bytes} (hlead : (47 : Byte) ∉ lead) :
    routeKey (lead ++ uni) = .segments (segmentsOf (ascii "uni")) := by
  have hcut : cut slash (lead ++ uni) = some (lead, ascii "uni") := by
    rw [uni_eq, ← List.append_assoc]
    exact cut_append (firstAt_singleton.mpr hlead) _
  have hroot : lead ++ uni ≠ slash := by
    intro heq
    have hlength := congrArg List.length heq
    rw [List.length_append] at hlength
    have huni : uni.length = 4 := rfl
    have hslash : slash.length = 1 := rfl
    omega
  rw [routeKey, if_neg hroot, hcut]

/-- The paths that are looked up under the key of the handler. -/
theorem lookupKey_uni_iff (path : Bytes) :
    lookupKey path = some (routeKey uni) ↔
      ∃ lead, (47 : Byte) ∉ lead ∧ path = lead ++ uni := by
  have hname : cut slash (ascii "uni") = none := rfl
  have huni : routeKey uni = .segments (segmentsOf (ascii "uni")) :=
    routeKey_uni List.not_mem_nil
  constructor
  · intro hkey
    have hnodes := congrArg (Option.map RouteKey.nodes) hkey
    rw [huni, Option.map_some, RouteKey.nodes, segmentsOf_last hname] at hnodes
    rcases path with _ | ⟨a, _ | ⟨b, path⟩⟩
    · cases hkey
    · -- a single character is too short
      rw [lookupKey, Option.map_some, Option.some_inj] at hnodes
      have hlong : ∀ c : Byte, [[c]] ≠ [ascii "uni"] := by
        intro c heq
        exact absurd (congrArg List.length (List.cons.inj heq).1)
          (show (1 : Nat) ≠ (ascii "uni").length by decide +kernel)
      split at hnodes
      · exact absurd hnodes (hlong a)
      · exact absurd hnodes (hlong 47)
    · rw [lookupKey] at hnodes
      cases hcut : cut slash (a :: b :: path) with
      | none =>
        rw [hcut] at hnodes
        cases hnodes
      | some parts =>
        obtain ⟨lead, rest⟩ := parts
        rw [hcut] at hnodes
        obtain ⟨hpath, hlead⟩ := cut_eq_some_iff.mp hcut
        have hsegments : (segmentsOf rest).map (·.1) = [ascii "uni"] :=
          Option.some_inj.mp hnodes
        refine ⟨lead, firstAt_singleton.mp hlead, ?_⟩
        rw [hpath, uni_eq, ← List.append_assoc]
        cases hrest : cut slash rest with
        | none =>
          rw [segmentsOf_last hrest] at hsegments
          rw [(List.cons.inj hsegments).1]
        | some parts =>
          rw [segmentsOf_step hrest] at hsegments
          exact absurd (List.cons.inj hsegments).2 (segmentsOf_ne_nil parts.2)
  · rintro ⟨lead, hlead, rfl⟩
    have hmem : (47 : Byte) ∈ lead ++ uni := by
      rw [uni_eq]
      simp [slash]
    rw [lookupKey_of_accepted (accepted_of_mem hmem), routeKey_uni hlead, huni]

/-- The handler is found for these requests and no others. -/
theorem get_router_iff (mtd : Method) (path : Bytes) :
    router.rtree.get mtd path = some () ↔ UniRouted mtd path := by
  have hrequest : RoutingTree.request .get uni (some ()) =
      some ((Method.get, routeKey uni), some ()) := by
    decide +kernel
  have hview : router.rtree.view = Registry.offer (fun _ => none)
      (Method.get, routeKey uni) (some ()) := by
    rw [router, RoutingTree.view_add, hrequest, RoutingTree.view_empty]
    rfl
  rw [RoutingTree.get_eq_view, hview, UniRouted, ← lookupKey_uni_iff]
  cases hkey : lookupKey path with
  | none => simp
  | some key =>
    rw [Option.bind_some, Registry.offer_apply, Option.none_or, Option.some_inj]
    by_cases hmtd : mtd = .get
    · by_cases hsame : key = routeKey uni
      · simp [hmtd, hsame]
      · simp [hmtd, hsame, Ne.symm hsame]
    · simp [hmtd, Ne.symm hmtd]

section

variable {env} {json} {format} {argv : List Bytes} {s : Surroundings}
  {ds : Descriptors} {ns : Nodes}

/-- When `main` serves, its own socket is open and bound to an address that was
resolved, and no other socket was touched; it has made one context and not freed it;
its log is that of `Start`; and its router finds the handler for `/uni` and no
other. -/
theorem main_serves (hnodup : ds.fds.Nodup) {w : Servers}
    {manager : RouterManager Unit} {log : ProcessLog}
    (h : main env json format argv s ds ns = .serving w manager log) :
    (w.serving = some (0, 1024) ∧ Servers.Listens w 0 s.listenCall.erase ∧
      Servers.Holds ds w ∧ w.contexts = { created := 1, freed := [] }) ∧
    (∃ args, arguments argv = some args ∧
      log.Left env json args.config s.config s.watcher) ∧
    ∃ router, manager = some router ∧ ∀ mtd path,
      router.rtree.get mtd path = some () ↔ UniRouted mtd path := by
  cases hargs : arguments argv with
  | none =>
    rw [main_usage (arguments_eq_none_iff.mp hargs)] at h
    cases h
  | some args =>
    rcases @main_cases env json format argv args s ds ns hargs with
      ⟨_, hmain⟩ | ⟨hgoes, log', hlog, ⟨hserving, hmain⟩ | ⟨_, hmain⟩⟩
    · rw [hmain] at h
      cases h
    · rw [hmain] at h
      cases h
      obtain ⟨⟨i, bufsize⟩, hloop⟩ := Option.isSome_iff_exists.mp hserving
      have hmade : Servers.Holds ds (made ds ns) :=
        Servers.Holds.snoc (Servers.holds_start hnodup ns) (some { ctx := some 0 })
          rfl rfl rfl
      obtain ⟨rfl, rfl, hlistens⟩ :=
        Servers.listens_of_serving hmade rfl s.listenCall.erase hloop
      have hholds := Servers.holds_of_run hnodup (@run_made s ds ns hgoes.1).1
      exact ⟨⟨hloop, hlistens, hholds, rfl⟩, ⟨args, rfl, History.run_left hlog⟩,
        router, rfl, get_router_iff⟩
    · rw [hmain] at h
      cases h

/-- A machine on which everything succeeds; the configuration is changed within the
third call of `LOG`. -/
def resolved : Surroundings :=
  { unresolved with
    resolved := .ok
      [ { address := HttpServer.node 1
          attempt := HttpServer.allSucceed
          socket := ⟨0, []⟩
          reuseAddr := ⟨0, []⟩
          reusePort := ⟨0, []⟩
          options := ⟨0, []⟩
          bind := ⟨0, []⟩ } ]
    moments := fun k =>
      if k = 2 then
        { quietMoment with between := [.reload (documentOf Journal.traceKeys)] }
      else quietMoment }

theorem resolved_utf8 : resolved.Utf8 ⟨[], [], ascii "log.yml"⟩ where
  cert := rfl
  key := rfl
  error := rfl
  listen :=
    { host := by decide +kernel
      port := by decide +kernel
      resolved := fun _ h => (by cases h)
      servinfo := by
        rintro servinfo ⟨⟩
        decide +kernel
      listens := fun _ h => (by cases h) }
  moments k := by
    show Moment.Utf8 (if k = 2 then _ else _)
    split
    · exact ⟨quietMoment_utf8.fileName, quietMoment_utf8.timepoint⟩
    · exact quietMoment_utf8

theorem main_serves_resolved :
    ∃ w manager log, main plainEnvironment writesCompact plainFormat
        [[], [], [], ascii "log.yml"] resolved HttpServer.oneSocket
        HttpServer.untouched = .serving w manager log ∧
      Servers.Listens w 0 resolved.listenCall.erase ∧
      w.contexts = { created := 1, freed := [] } ∧
      log.Left plainEnvironment writesCompact (ascii "log.yml")
        (documentOf Journal.fileKeys) .ready := by
  obtain ⟨log, hmain⟩ := @main_goes plainEnvironment writesCompact plainFormat
    [[], [], [], ascii "log.yml"] _ resolved HttpServer.oneSocket
    HttpServer.untouched rfl ⟨loads_loaded, quiet_of_utf8 resolved_utf8⟩
  change main _ _ _ _ _ _ _ = .serving _ _ log at hmain
  obtain ⟨⟨_, hlistens, _, hcontexts⟩, ⟨args, hargs, hleft⟩, _⟩ :=
    main_serves Servers.oneSocket_once hmain
  cases hargs
  exact ⟨_, _, log, hmain, hlistens, hcontexts, hleft⟩

end

/-! ## What a client reads

The log calls of a connection are left out. -/

section

variable {json : Nlohmann} {draws : Draws} {raw : Bytes} {id : Bytes} {now : Int}

/-- The response of the program to a message, and whether its handler is called. -/
inductive UniOutcome (json : Nlohmann) (draws : Draws) (id : Bytes) (now : Int)
    (raw : Bytes) : Response → Bool → Prop where
  /-- 200 -/
  | uni {req : Request} (hparse : parse json draws.requestId raw = .ok (some req))
      (hrouted : UniRouted req.method req.path) :
      UniOutcome json draws id now raw (makeResp .success id now uniResult) true
  /-- 404 -/
  | other {req : Request} (hparse : parse json draws.requestId raw = .ok (some req))
      (hother : ¬ UniRouted req.method req.path) :
      UniOutcome json draws id now raw
        (makeResp .notFound draws.requestId draws.now) false
  /-- 400 -/
  | rejected (hparse : parse json draws.requestId raw = .ok none) :
      UniOutcome json draws id now raw
        (makeResp .invalidJsonOrParams draws.responseId draws.now) false

theorem uniOutcome_of_outcome {resp : Response} {called : List (Unit × Request)}
    (h : Outcome json (uniHandler id now) (some router) draws raw resp called) :
    UniOutcome json draws id now raw resp (!called.isEmpty) := by
  cases h with
  | rejected hparse => exact .rejected hparse
  | noRouter hparse hmanager => cases hmanager
  | notFound hparse hmanager hget =>
    cases hmanager
    refine .other hparse fun hrouted => ?_
    rw [(get_router_iff _ _).mpr hrouted] at hget
    cases hget
  | found hparse hmanager hget hinvoke =>
    cases hmanager
    cases hinvoke
    exact .uni hparse ((get_router_iff _ _).mp hget)

theorem uniResult_dumpable : uniResult.dumpable = true := rfl

/-- What the handler answers is readable. -/
theorem uniHandler_readable (hid : ¬ crlf <:+: id) :
    Readable (makeResp .success id now uniResult) where
  dumpable := makeResp_dumpable .success id now uniResult_dumpable
  sendable := (makeResp_readable .success now hid).sendable

/-- A client whose message arrives reads 200 and the message of the handler when it
is an accepted `GET` for `/uni`, with anything but a slash in front of that, 404
when it is another accepted request, and 400 when it is none; the handler is called
in the first case only. -/
theorem uni_answers {bufsize : Nat} {reads : List TlsRead}
    (harrives : HttpsConnection.MessageArrives bufsize reads raw)
    (hparse : ∃ result, parse json draws.requestId raw = .ok result)
    (hrequestId : ¬ crlf <:+: draws.requestId)
    (hresponseId : ¬ crlf <:+: draws.responseId) (hid : ¬ crlf <:+: id)
    (hshort : ∀ text,
      (execution json (uniHandler id now) (some router) draws raw).1 = .ok text →
        text.length < 2 ^ 31)
    (t : SslTransport) :
    ∃ resp called out n, UniOutcome json draws id now raw resp (!called.isEmpty) ∧
      HttpsConnection.process json (uniHandler id now) (some router) draws bufsize
          (reads.map .inl ++ (t.writes n).map .inr) =
        some (.ok { ret := true, accepted := out, called := called }) ∧
      decodeResponse out = some (resp.toText (json.text 4 resp.body)) := by
  obtain ⟨result, hresult⟩ := hparse
  obtain ⟨resp, called, houtcome⟩ :
      ∃ resp called,
        Outcome json (uniHandler id now) (some router) draws raw resp called :=
    exists_outcome (fun _ _ => ⟨_, rfl⟩) hresult
  have hhandler : ∀ (h : Unit) req resp, req.id = draws.requestId →
      uniHandler id now h req = .ok resp → Readable resp := by
    rintro h req resp _ ⟨⟩
    exact uniHandler_readable hid
  have hread :=
    houtcome.readable harrives.length_lt hrequestId hresponseId hhandler
  have htext : ∀ out, serialize json resp = .ok out → out.length < 2 ^ 31 := by
    intro out hout
    apply hshort
    rw [houtcome.execution_eq harrives.length_lt, hout, noexcept_ok]
  obtain ⟨out, n, hprocess, hdecode⟩ :=
    HttpsConnection.exchange_of_outcome harrives houtcome hread htext t
  exact ⟨resp, called, out, n, uniOutcome_of_outcome houtcome, hprocess, hdecode⟩

end

/-- A request for the handler. -/
def uniRequest : RequestText :=
  { HttpsConnection.order with method := .get, path := uni }

theorem uniRequest_wellFormed : uniRequest.WellFormed :=
  { HttpsConnection.order_wellFormed with
    method := by decide
    path := forall_of_all (by decide +kernel) }

/-- It arrives in one piece and is answered by the handler. -/
theorem uni_answers_uniRequest :
    ∃ resp called out n,
      UniOutcome RequestText.readsEmptyObject someDraws [3] 0 uniRequest.render resp
        (!called.isEmpty) ∧
      HttpsConnection.process RequestText.readsEmptyObject (uniHandler [3] 0)
          (some router) someDraws 1024
          ([TlsRead.data uniRequest.render].map .inl ++
            (HttpsConnection.takesAll.writes n).map .inr) =
        some (.ok { ret := true, accepted := out, called := called }) ∧
      decodeResponse out = some (resp.toText []) := by
  have hparse : parse RequestText.readsEmptyObject someDraws.requestId
      uniRequest.render = .ok (some (uniRequest.request [1] (.object []))) :=
    uniRequest.parse_eq uniRequest_wellFormed _ _ (by decide +kernel) rfl
  have hrouted : UniRouted .get uni := ⟨rfl, [], by decide, rfl⟩
  have houtcome : Outcome RequestText.readsEmptyObject (uniHandler [3] 0)
      (some router) someDraws uniRequest.render (makeResp .success [3] 0 uniResult)
      [((), uniRequest.request [1] (.object []))] :=
    .found hparse rfl ((get_router_iff _ _).mpr hrouted) rfl
  have hshort : ∀ text,
      (execution RequestText.readsEmptyObject (uniHandler [3] 0) (some router)
        someDraws uniRequest.render).1 = .ok text → text.length < 2 ^ 31 := by
    intro text htext
    have hdump : RequestText.readsEmptyObject.dump
        (makeResp .success [3] 0 uniResult).body 4 = .ok [] := rfl
    rw [houtcome.execution_eq (by decide +kernel), serialize_eq hdump] at htext
    cases htext
    decide +kernel
  exact uni_answers
    (HttpsConnection.messageArrives_single (by decide +kernel) (by decide +kernel))
    ⟨_, hparse⟩ (by decide) (by decide) (by decide) hshort HttpsConnection.takesAll

end UniServer.Main
