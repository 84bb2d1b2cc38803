/-
  Http/ServerLog.lean --- the log records of a server and of `RouterManager`.

  The calls of `LOG` are added to the models of `Http/Listener`, `Http/ServerLife`
  and `Routing/Manager`; the results are the same.  What is logged of a call that
  fails is given with what the call comes to: a code of the TLS library, or `errno`
  with its text.

  These texts, the host and port, and the paths of certificate and key are all that
  the records hold of the surroundings (`each_listen` and its like).
-/
import UniServer.Http.JsonText
import UniServer.Http.ParseLog
import UniServer.Http.ServerLife
import UniServer.Routing.Manager

set_option autoImplicit false

namespace UniServer.Http

open UniServer.Foundation UniServer.Common UniServer.Logging UniServer.Routing

theorem validUtf8_integerText (i : Int) : validUtf8 (integerText i) = true := by
  unfold integerText
  split
  · apply validUtf8_of_ascii
    intro b hb
    rcases List.mem_cons.mp hb with rfl | hb
    · decide
    · have hdigit := decimal_digits i.natAbs b hb
      omega
  · exact Logged.validUtf8_decimal i.natAbs

/-! ## What is logged of the surroundings -/

/-- `errno`, and its `strerror`. -/
structure SysError where
  errno : Int
  strerror : Bytes

/-- An address with what the calls for it come to, and the errors of those that
fail; `options` is what `errno` is behind `setSockOptions`. -/
structure Candidate where
  address : AddrInfo
  attempt : Attempt
  socket : SysError
  reuseAddr : SysError
  reusePort : SysError
  options : SysError
  bind : SysError

namespace Candidate

/-- The address as `buildSocket` walks over it. -/
def entry (c : Candidate) : AddrInfo × Attempt := (c.address, c.attempt)

def errors (c : Candidate) : List SysError :=
  [c.socket, c.reuseAddr, c.reusePort, c.options, c.bind]

end Candidate

/-- The arguments of `listen`, and what its calls come to: the text of
`gai_strerror`, or a list of addresses, and the error of `::listen`, if there is
one. -/
structure ListenCall where
  host : Bytes := ascii "0.0.0.0"
  port : Bytes := ascii "8080"
  max_connections : Int := kMaxConnections
  bufsize : Int := kReceptionBufSize
  resolved : Except Bytes (List Candidate)
  listens : Except SysError Unit

namespace ListenCall

/-- The call without what is logged. -/
def erase (call : ListenCall) : Listen where
  resolved := call.resolved.toOption.map fun servinfo =>
    servinfo.map Candidate.entry
  max_connections := call.max_connections
  bufsize := call.bufsize
  listens := call.listens.isOk

/-- What its records may show is UTF-8. -/
structure Utf8 (call : ListenCall) : Prop where
  host : validUtf8 call.host = true
  port : validUtf8 call.port = true
  resolved : ∀ what, call.resolved = .error what → validUtf8 what = true
  servinfo : ∀ servinfo, call.resolved = .ok servinfo →
    ∀ p ∈ servinfo, ∀ error ∈ p.errors, validUtf8 error.strerror = true
  listens : ∀ error, call.listens = .error error →
    validUtf8 error.strerror = true

end ListenCall

/-- What the constructor of `HttpsServer` is given, with the paths, and with the
code of the error. -/
structure TlsCall where
  cert : Bytes
  key : Bytes
  code : Nat
  setup : TlsSetup

namespace Logged

/-! ## Sockets -/

/-- A call of `LOG` that shows `errno`. -/
def logErrno (level : Log) (msg : String) (error : SysError) : Logged Unit :=
  log level msg
    [ (ascii "errno", integerText error.errno),
      (ascii "strerror", error.strerror) ]

/-- `applyOption` -/
def applyOption (sockfd : Int) (option : SockOption × Bool) (error : SysError)
    (ds : Descriptors) : Logged (Bool × Descriptors) := do
  if option.2 then
    return (true, ds.setsockopt sockfd option.1)
  else
    logErrno .error "Error from ::setsockopt()" error
    return (false, ds)

/-- `setSockOptions` -/
def setSockOptions (sockfd : Int) :
    (SockOption × Bool) × SysError → List ((SockOption × Bool) × SysError) →
      Descriptors → Logged (Bool × Descriptors)
  | option, [], ds => applyOption sockfd option.1 option.2 ds
  | option, next :: rest, ds => do
      let (_, ds) ← applyOption sockfd option.1 option.2 ds
      setSockOptions sockfd next rest ds

/-- The loop of `buildSocket`. -/
def buildLoop :
    List Candidate → Descriptors → Nodes →
      Logged (HttpServer.LoopEnd × Descriptors × Nodes)
  | [], ds, ns => return (.exhausted, ds, ns)
  | p :: next, ds, ns => do
      let ns := ns.inspect p.address
      match p.attempt.socket with
      | none =>
          logErrno .warning "Error from ::socket(), trying next address" p.socket
          buildLoop next ds
            (ns.freeaddrinfo (p.address :: next.map Candidate.address))
      | some fresh =>
        let (sockfd, ds) := ds.socket fresh p.address
        match ← setSockOptions sockfd
            ((.reuseAddr, p.attempt.reuseAddr), p.reuseAddr)
            [((.reusePort, p.attempt.reusePort), p.reusePort)] ds with
        | (false, ds) =>
            logErrno .error "Error from HttpServer::setSockOptions()" p.options
            return (.refused, (HttpServer.closeConnection sockfd ds).2,
              ns.freeaddrinfo (p.address :: next.map Candidate.address))
        | (true, ds) =>
            let ns := ns.inspect p.address
            if p.attempt.bind then
              return (.bound (p.address :: next.map Candidate.address) sockfd,
                ds.bind sockfd p.address.addr, ns)
            else
              logErrno .warning "Error from ::bind(), trying next address" p.bind
              buildLoop next (HttpServer.closeConnection sockfd ds).2 ns

/-- `buildSocket` -/
def buildSocket (call : ListenCall) (server : HttpServer) (ds : Descriptors)
    (ns : Nodes) : Logged HttpServer.Built := do
  match call.resolved with
  | .error what =>
      log .error "Error from ::getaddrinfo()" [(ascii "gai_strerror", what)]
      return { ret := false, server := server, descriptors := ds, nodes := ns }
  | .ok servinfo =>
    match ← buildLoop servinfo ds ns with
    | (.exhausted, ds, ns) =>
        log .critical "HttpServer failed to bind to any resolved address"
          [(ascii "host", call.host), (ascii "port", call.port)]
        return { ret := false, server := server, descriptors := ds, nodes := ns }
    | (.refused, ds, ns) =>
        return { ret := false, server := server, descriptors := ds, nodes := ns }
    | (.bound p sockfd, ds, ns) =>
        log .debug "Socket bound successfully"
          [(ascii "sockfd", integerText sockfd)]
        return {
          ret := true,
          server := { sockfd := sockfd, servinfo := p },
          descriptors := (HttpServer.closeConnection server.sockfd ds).2,
          nodes := ns }

/-- `listenInternal` up to `clientIntakeCycle`. -/
def listenInternal (call : ListenCall) : Logged Bool := do
  if call.max_connections ≤ 0 then
    log .error "The number of connections must be greater than 0"
      [(ascii "max_connections", integerText call.max_connections)]
    return false
  else if call.bufsize ≤ 0 then
    log .error "The buffer size must be strictly greater than 0"
      [(ascii "bufsize", integerText call.bufsize)]
    return false
  else
    match call.listens with
    | .error error =>
        logErrno .critical
          "Error from ::listen() — server cannot accept connections" error
        return false
    | .ok _ =>
        log .info "Server listening for connections"
          [ (ascii "max_connections", integerText call.max_connections),
            (ascii "bufsize", integerText call.bufsize) ]
        return true

/-! ## Servers -/

/-- A call for the object of that number; one that is gone has none. -/
def on (w : Servers) (i : Nat) (f : Server → Logged Servers) : Logged Servers :=
  match w.objects[i]? with
  | some (some server) => f server
  | _ => return w

/-- `HttpServer::listen` -/
def listen (w : Servers) (i : Nat) (call : ListenCall) : Logged Servers :=
  on w i fun server => do
    log .info "Starting HTTP server"
      [ (ascii "host", call.host), (ascii "port", call.port),
        (ascii "max_connections", integerText call.max_connections) ]
    let built ← buildSocket call server.http w.descriptors w.nodes
    let ok ← if built.ret then listenInternal call else pure false
    if !ok then
      log .critical
        "HttpServer failed to start listening — server cannot accept connections"
        [(ascii "host", call.host), (ascii "port", call.port)]
    return { w with
      objects := w.objects.set i (some { server with http := built.server }),
      descriptors := built.descriptors,
      nodes := built.nodes,
      serving := if ok then some (i, call.bufsize) else none }

/-- `throw SSLException(msg)` -/
def sslException {α : Type} (msg : Bytes) : Logged α :=
  Traced.lift (.error (.throw (.runtimeError msg)))

/-- The fields of an error of the TLS library. -/
def opensslError (call : TlsCall) : List (Bytes × Bytes) :=
  [ (ascii "OpenSSL_error_code", decimal call.code),
    (ascii "OpenSSL_error_string", call.setup.error) ]

/-- `HttpsServer::HttpsServer`, behind `HttpServer::HttpServer`. -/
def construct (call : TlsCall) (ctxs : Contexts) :
    Logged (Server × Contexts) := do
  log .debug "HttpServer instance created" []
  log .debug "Initializing TLS context" []
  if !call.setup.created then
    log .critical
      "Failed to create SSL_CTX object — server cannot start in HTTPS mode"
      (opensslError call)
    sslException call.setup.error
  else
    let ctx := ctxs.created
    let ctxs := { ctxs with created := ctxs.created + 1 }
    if call.setup.certificate ≤ 0 then
      log .critical
        "Failed to load certificate file — server cannot start in HTTPS mode"
        ((ascii "cert_path", call.cert) :: opensslError call)
      sslException call.setup.error
    else if call.setup.key ≤ 0 then
      log .critical
        "Failed to load private key file — server cannot start in HTTPS mode"
        ((ascii "key_path", call.key) :: opensslError call)
      sslException call.setup.error
    else if call.setup.agrees = 0 then
      Traced.emit { level := .critical, msg := keyMismatch, details := [] }
      sslException keyMismatch
    else
      log .info "TLS context initialized successfully"
        [(ascii "cert_path", call.cert)]
      return ({ ctx := some ctx }, ctxs)

/-- The constructor of a new object. -/
def constructTls (w : Servers) (call : TlsCall) : Logged Servers := do
  let (server, ctxs) ← construct call w.contexts
  return { w with objects := w.objects ++ [some server], contexts := ctxs }

/-- `~HttpsServer` and `~HttpServer` -/
def destroy (w : Servers) (i : Nat) : Logged Servers :=
  on w i fun server => do
    if server.ctx.isSome then
      log .debug "HttpsServer destroyed, SSL_CTX freed" []
    log .trace "Freeing addrinfo" []
    log .debug "HttpServer instance destroyed" []
    return w.destroy i server

/-! ## Routes -/

variable {H : Type}

/-- `RouterManager::Init`, without a key -/
def init (manager : RouterManager H) : Logged (RouterManager H) := do
  if manager.isSome then
    log .warning "Router already initialized, replacing existing instance" []
  log .debug "Initializing router with default hash key" []
  return RouterManager.init

/-- The registration functions of `RouterManager`. -/
def register (via : Registrar) (manager : RouterManager H) (path : Bytes)
    (h : Option H) : Logged (Bool × RouterManager H) := do
  if manager.isNone then
    log .error "Router not initialized" [(ascii "path", path)]
  else
    log .trace "Registering handler" [(ascii "path", path)]
  let (result, manager) := via.call manager path h
  let ok ← Traced.lift result
  if !ok then
    log .warning "Failed to register handler" [(ascii "path", path)]
  return (ok, manager)

/-! ## Logging changes no result -/

theorem result_applyOption (sockfd : Int) (option : SockOption × Bool)
    (error : SysError) (ds : Descriptors) :
    (applyOption sockfd option error ds).result =
      .ok (HttpServer.applyOption sockfd option ds) := by
  unfold applyOption HttpServer.applyOption
  cases option.2 <;> rfl

theorem result_setSockOptions (sockfd : Int)
    (option : (SockOption × Bool) × SysError)
    (rest : List ((SockOption × Bool) × SysError)) (ds : Descriptors) :
    (setSockOptions sockfd option rest ds).result =
      .ok (HttpServer.setSockOptions sockfd option.1 (rest.map Prod.fst) ds) := by
  induction rest generalizing option ds with
  | nil => exact result_applyOption sockfd option.1 option.2 ds
  | cons next rest ih =>
    rw [setSockOptions, Traced.result_bind, result_applyOption, Run.ok_bind]
    exact ih next _

theorem addresses_eq (servinfo : List Candidate) :
    (servinfo.map Candidate.entry).map Prod.fst =
      servinfo.map Candidate.address := by
  rw [List.map_map]
  rfl

theorem result_buildLoop (servinfo : List Candidate) (ds : Descriptors)
    (ns : Nodes) :
    (buildLoop servinfo ds ns).result =
      .ok (HttpServer.buildLoop (servinfo.map Candidate.entry) ds ns) := by
  induction servinfo generalizing ds ns with
  | nil => rfl
  | cons p next ih =>
    rw [buildLoop, List.map_cons, Candidate.entry, HttpServer.buildLoop,
      addresses_eq]
    cases hsocket : p.attempt.socket with
    | none => exact ih _ _
    | some fresh =>
      simp only [Traced.result_bind, result_setSockOptions, Run.ok_bind,
        List.map_cons, List.map_nil]
      generalize HttpServer.setSockOptions (ds.socket fresh p.address).1
        (.reuseAddr, p.attempt.reuseAddr) [(.reusePort, p.attempt.reusePort)]
        (ds.socket fresh p.address).2 = set
      obtain ⟨set, _⟩ := set
      cases set with
      | false => rfl
      | true =>
        cases p.attempt.bind with
        | true => rfl
        | false => exact ih _ _

theorem result_buildSocket (call : ListenCall) (server : HttpServer)
    (ds : Descriptors) (ns : Nodes) :
    (buildSocket call server ds ns).result =
      .ok (HttpServer.buildSocket call.erase.resolved server ds ns) := by
  unfold buildSocket ListenCall.erase
  cases call.resolved with
  | error what => rfl
  | ok servinfo =>
    simp only [Traced.result_bind, result_buildLoop, Run.ok_bind]
    show _ = Except.ok
      (HttpServer.buildSocket (some (servinfo.map Candidate.entry)) server ds ns)
    rw [HttpServer.buildSocket]
    cases HttpServer.buildLoop (servinfo.map Candidate.entry) ds ns with
    | mk how left => cases how <;> rfl

theorem result_listenInternal (call : ListenCall) :
    (listenInternal call).result =
      .ok (HttpServer.listenInternal call.max_connections call.bufsize
        call.listens.isOk) := by
  unfold listenInternal HttpServer.listenInternal
  split
  · rfl
  · split
    · rfl
    · cases call.listens <;> rfl

theorem result_on {w w' : Servers} {i : Nat} {f : Server → Logged Servers}
    {g : Server → Servers} (hf : ∀ server, (f server).result = .ok (g server))
    (h : w.on i (fun server => .ok (g server)) = .ok w') :
    (on w i f).result = .ok w' := by
  obtain ⟨server, hobject, hok⟩ := Servers.on_eq_ok.mp h
  cases hok
  rw [on, hobject]
  exact hf server

theorem result_listen {w w' : Servers} {i : Nat} {call : ListenCall}
    (h : Servers.step w (.listen i call.erase) = .ok w') :
    (listen w i call).result = .ok w' := by
  unfold Servers.step at h
  split at h
  · cases h
  · refine result_on (fun server => ?_) h
    unfold Servers.listen
    rw [Traced.result_bind, log, Traced.result_emit, Run.ok_bind,
      Traced.result_bind, result_buildSocket, Run.ok_bind]
    generalize HttpServer.buildSocket call.erase.resolved server.http w.descriptors
      w.nodes = built
    obtain ⟨ret, server', ds, ns⟩ := built
    cases ret with
    | false => rfl
    | true =>
      have hinternal : HttpServer.listenInternal call.erase.max_connections
          call.erase.bufsize call.erase.listens =
        HttpServer.listenInternal call.max_connections call.bufsize
          call.listens.isOk := rfl
      simp only [hinternal, if_true, Traced.result_bind, result_listenInternal,
        Run.ok_bind]
      cases HttpServer.listenInternal call.max_connections call.bufsize
        call.listens.isOk <;> rfl

theorem result_construct (call : TlsCall) (ctxs : Contexts) :
    (construct call ctxs).result =
      match HttpsServer.construct call.setup ctxs with
      | (.ok server, ctxs) => .ok (server, ctxs)
      | (.error msg, _) => .error (.throw (.runtimeError msg)) := by
  unfold construct HttpsServer.construct
  split
  · rfl
  · split
    · rfl
    · split
      · rfl
      · split <;> rfl

theorem result_constructTls (w : Servers) (call : TlsCall) :
    (constructTls w call).result =
      match HttpsServer.construct call.setup w.contexts with
      | (.ok _, _) => .ok (w.constructTls call.setup)
      | (.error msg, _) => .error (.throw (.runtimeError msg)) := by
  rw [constructTls, Traced.result_bind, result_construct, Servers.constructTls]
  cases HttpsServer.construct call.setup w.contexts with
  | mk made ctxs => cases made <;> rfl

theorem result_destroy {w w' : Servers} {i : Nat}
    (h : Servers.step w (.destroy i) = .ok w') :
    (destroy w i).result = .ok w' := by
  unfold Servers.step at h
  split at h
  · cases h
  · refine result_on (fun server => ?_) h
    cases server.ctx <;> rfl

variable {H : Type}

theorem result_init (manager : RouterManager H) :
    (init manager).result = .ok RouterManager.init := by
  cases manager <;> rfl

theorem result_register (via : Registrar) (manager : RouterManager H)
    (path : Bytes) (h : Option H) :
    (register via manager path h).result =
      (via.call manager path h).1.map fun ok =>
        (ok, (via.call manager path h).2) := by
  unfold register
  cases manager with
  | none =>
    rw [via.call_none path h]
    rfl
  | some router =>
    rw [via.call_some router path h]
    cases (router.rtree.add via.method path h).ok <;> rfl

/-! ## What the records show -/

/-- The names of the fields. -/
theorem validUtf8_names :
    validUtf8 (ascii "errno") = true ∧ validUtf8 (ascii "strerror") = true ∧
      validUtf8 (ascii "gai_strerror") = true ∧ validUtf8 (ascii "host") = true ∧
      validUtf8 (ascii "port") = true ∧ validUtf8 (ascii "sockfd") = true ∧
      validUtf8 (ascii "max_connections") = true ∧
      validUtf8 (ascii "bufsize") = true ∧
      validUtf8 (ascii "OpenSSL_error_code") = true ∧
      validUtf8 (ascii "OpenSSL_error_string") = true ∧
      validUtf8 (ascii "cert_path") = true ∧ validUtf8 (ascii "key_path") = true ∧
      validUtf8 (ascii "path") = true := by
  decide +kernel

/-- Behind a call of `LOG`. -/
theorem each_log_bind {α : Type} {level : Log} {msg : String}
    {details : List (Bytes × Bytes)} {f : Unit → Logged α} :
    (log level msg details >>= f).Each LogCall.Utf8 ↔
      (∀ detail ∈ details, validUtf8 detail.1 = true ∧ validUtf8 detail.2 = true) ∧
        (f ()).Each LogCall.Utf8 :=
  Traced.each_emit_bind

/-- Without fields. -/
theorem each_plain_bind {α : Type} {level : Log} {msg : String}
    {f : Unit → Logged α} (h : (f ()).Each LogCall.Utf8) :
    (log level msg [] >>= f).Each LogCall.Utf8 :=
  each_log_bind.mpr ⟨by simp, h⟩

theorem each_logErrno_bind {α : Type} {level : Log} {msg : String}
    {error : SysError} (herror : validUtf8 error.strerror = true)
    {f : Unit → Logged α} (h : (f ()).Each LogCall.Utf8) :
    (logErrno level msg error >>= f).Each LogCall.Utf8 := by
  refine each_log_bind.mpr ⟨?_, h⟩
  simp [validUtf8_names, validUtf8_integerText, herror]

theorem each_applyOption {sockfd : Int} {option : SockOption × Bool}
    {error : SysError} (herror : validUtf8 error.strerror = true)
    (ds : Descriptors) :
    (applyOption sockfd option error ds).Each LogCall.Utf8 := by
  unfold applyOption
  split
  · exact Traced.each_pure _
  · exact each_logErrno_bind herror (Traced.each_pure _)

theorem each_setSockOptions {sockfd : Int} {option : (SockOption × Bool) × SysError}
    {rest : List ((SockOption × Bool) × SysError)}
    (h : ∀ o ∈ option :: rest, validUtf8 o.2.strerror = true) (ds : Descriptors) :
    (setSockOptions sockfd option rest ds).Each LogCall.Utf8 := by
  induction rest generalizing option ds with
  | nil => exact each_applyOption (h option List.mem_cons_self) ds
  | cons next rest ih =>
    rw [List.forall_mem_cons] at h
    rw [setSockOptions, Traced.each_bind]
    exact ⟨each_applyOption h.1 ds, fun result _ => ih h.2 result.2⟩

theorem each_buildLoop {servinfo : List Candidate}
    (h : ∀ p ∈ servinfo, ∀ error ∈ p.errors, validUtf8 error.strerror = true)
    (ds : Descriptors) (ns : Nodes) :
    (buildLoop servinfo ds ns).Each LogCall.Utf8 := by
  induction servinfo generalizing ds ns with
  | nil => exact Traced.each_pure _
  | cons p next ih =>
    rw [List.forall_mem_cons] at h
    obtain ⟨hp, hnext⟩ := h
    simp only [Candidate.errors, List.forall_mem_cons] at hp
    obtain ⟨hsocket, haddr, hport, hoptions, hbind, _⟩ := hp
    rw [buildLoop]
    cases p.attempt.socket with
    | none => exact each_logErrno_bind hsocket (ih hnext _ _)
    | some fresh =>
      refine Traced.each_bind.mpr ⟨each_setSockOptions ?_ _, fun result _ => ?_⟩
      · simp [haddr, hport]
      · obtain ⟨ok, ds⟩ := result
        cases ok with
        | false => exact each_logErrno_bind hoptions (Traced.each_pure _)
        | true =>
          simp only []
          split
          · exact Traced.each_pure _
          · exact each_logErrno_bind hbind (ih hnext _ _)

theorem each_buildSocket {call : ListenCall} (h : call.Utf8)
    (server : HttpServer) (ds : Descriptors) (ns : Nodes) :
    (buildSocket call server ds ns).Each LogCall.Utf8 := by
  have hnames := validUtf8_names
  unfold buildSocket
  cases hresolved : call.resolved with
  | error what =>
    refine each_log_bind.mpr ⟨?_, Traced.each_pure _⟩
    simp [hnames, h.resolved what hresolved]
  | ok servinfo =>
    refine Traced.each_bind.mpr
      ⟨each_buildLoop (h.servinfo servinfo hresolved) ds ns, fun result _ => ?_⟩
    obtain ⟨how, left⟩ := result
    cases how with
    | exhausted =>
      refine each_log_bind.mpr ⟨?_, Traced.each_pure _⟩
      simp [hnames, h.host, h.port]
    | refused => exact Traced.each_pure _
    | bound p sockfd =>
      refine each_log_bind.mpr ⟨?_, Traced.each_pure _⟩
      simp [hnames, validUtf8_integerText]

theorem each_listenInternal {call : ListenCall} (h : call.Utf8) :
    (listenInternal call).Each LogCall.Utf8 := by
  have hnames := validUtf8_names
  unfold listenInternal
  split
  · refine each_log_bind.mpr ⟨?_, Traced.each_pure _⟩
    simp [hnames, validUtf8_integerText]
  · split
    · refine each_log_bind.mpr ⟨?_, Traced.each_pure _⟩
      simp [hnames, validUtf8_integerText]
    · cases hlistens : call.listens with
      | error error =>
        exact each_logErrno_bind (h.listens error hlistens) (Traced.each_pure _)
      | ok _ =>
        refine each_log_bind.mpr ⟨?_, Traced.each_pure _⟩
        simp [hnames, validUtf8_integerText]

theorem each_on {w : Servers} {i : Nat} {f : Server → Logged Servers}
    (hf : ∀ server, (f server).Each LogCall.Utf8) :
    (on w i f).Each LogCall.Utf8 := by
  unfold on
  split
  · exact hf _
  · exact Traced.each_pure _

theorem each_listen {call : ListenCall} (h : call.Utf8) (w : Servers) (i : Nat) :
    (listen w i call).Each LogCall.Utf8 := by
  have hnames := validUtf8_names
  have hlast : ∀ (ok : Bool) (w : Servers), Traced.Each LogCall.Utf8 (do
      if !ok then
        log .critical
          "HttpServer failed to start listening — server cannot accept connections"
          [(ascii "host", call.host), (ascii "port", call.port)]
      return w : Logged Servers) := by
    intro ok w
    cases ok with
    | true => exact Traced.each_pure _
    | false =>
      refine each_log_bind.mpr ⟨?_, Traced.each_pure _⟩
      simp [hnames, h.host, h.port]
  refine each_on fun server => each_log_bind.mpr ⟨?_, Traced.each_bind.mpr
    ⟨each_buildSocket h _ _ _, fun built _ => ?_⟩⟩
  · simp [hnames, validUtf8_integerText, h.host, h.port]
  · dsimp only
    split
    · exact Traced.each_bind.mpr ⟨each_listenInternal h, fun ok _ => hlast ok _⟩
    · exact Traced.each_bind.mpr ⟨Traced.each_pure _, fun ok _ => hlast ok _⟩

theorem each_construct {call : TlsCall} (hcert : validUtf8 call.cert = true)
    (hkey : validUtf8 call.key = true) (herror : validUtf8 call.setup.error = true)
    (ctxs : Contexts) : (construct call ctxs).Each LogCall.Utf8 := by
  have hnames := validUtf8_names
  have hopenssl : ∀ detail ∈ opensslError call,
      validUtf8 detail.1 = true ∧ validUtf8 detail.2 = true := by
    simp [opensslError, hnames, validUtf8_decimal, herror]
  have hthrows : ∀ {α : Type} (msg : Bytes),
      (sslException msg : Logged α).Each LogCall.Utf8 :=
    fun msg => Traced.each_lift _
  unfold construct
  refine each_plain_bind (each_plain_bind ?_)
  split
  · exact each_log_bind.mpr ⟨hopenssl, hthrows _⟩
  · split
    · exact each_log_bind.mpr
        ⟨List.forall_mem_cons.mpr ⟨by simp [hnames, hcert], hopenssl⟩, hthrows _⟩
    · split
      · exact each_log_bind.mpr
          ⟨List.forall_mem_cons.mpr ⟨by simp [hnames, hkey], hopenssl⟩, hthrows _⟩
      · split
        · refine Traced.each_emit_bind.mpr ⟨?_, hthrows _⟩
          simp [LogCall.Utf8]
        · refine each_log_bind.mpr ⟨?_, Traced.each_pure _⟩
          simp [hnames, hcert]

theorem each_constructTls {call : TlsCall} (hcert : validUtf8 call.cert = true)
    (hkey : validUtf8 call.key = true) (herror : validUtf8 call.setup.error = true)
    (w : Servers) : (constructTls w call).Each LogCall.Utf8 :=
  Traced.each_bind.mpr
    ⟨each_construct hcert hkey herror _, fun _ _ => Traced.each_pure _⟩

theorem each_destroy (w : Servers) (i : Nat) :
    (destroy w i).Each LogCall.Utf8 := by
  refine each_on fun server => ?_
  have hbase : Traced.Each LogCall.Utf8 (do
      log .trace "Freeing addrinfo" []
      log .debug "HttpServer instance destroyed" []
      return w.destroy i server : Logged Servers) :=
    each_plain_bind (each_plain_bind (Traced.each_pure _))
  split
  · exact each_plain_bind hbase
  · exact hbase

theorem each_init (manager : RouterManager H) :
    (init manager).Each LogCall.Utf8 := by
  unfold init
  split
  · exact each_plain_bind (each_plain_bind (Traced.each_pure _))
  · exact each_plain_bind (Traced.each_pure _)

theorem each_register {path : Bytes} (hpath : validUtf8 path = true)
    (via : Registrar) (manager : RouterManager H) (h : Option H) :
    (register via manager path h).Each LogCall.Utf8 := by
  have hshown : ∀ detail ∈ [(ascii "path", path)],
      validUtf8 detail.1 = true ∧ validUtf8 detail.2 = true := by
    simp [validUtf8_names, hpath]
  have hrest : ∀ (result : Run Bool) (manager : RouterManager H),
      Traced.Each LogCall.Utf8 (do
        let ok ← Traced.lift result
        if !ok then
          log .warning "Failed to register handler" [(ascii "path", path)]
        return (ok, manager) : Logged (Bool × RouterManager H)) := by
    intro result manager
    refine Traced.each_lift_bind.mpr fun ok _ => ?_
    cases ok with
    | true => exact Traced.each_pure _
    | false => exact each_log_bind.mpr ⟨hshown, Traced.each_pure _⟩
  unfold register
  dsimp only
  split
  · exact each_log_bind.mpr ⟨hshown, hrest _ _⟩
  · exact each_log_bind.mpr ⟨hshown, hrest _ _⟩

end Logged

end UniServer.Http
