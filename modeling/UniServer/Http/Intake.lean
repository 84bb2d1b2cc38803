/-
  Http/Intake.lean --- `clientIntakeCycle` of the two servers.

  Each iteration accepts a client, the TLS server shakes hands with it, and a
  child process is forked that serves it.  What a process holds is its listening
  socket, the descriptors of its clients and the SSL objects it has made; after
  `fork` parent and child each have their own copy of it.

  A list of outcomes is a run of one process.  It ends at the iteration in which
  this process is the child.  Log calls are left out.
-/
import UniServer.Foundation.Loop

set_option autoImplicit false

namespace UniServer.Http

open UniServer.Foundation

/-- `kInvalidSocket`. -/
def kInvalidSocket : Int := -1

/-- `kEmptyDescriptor`. -/
def kEmptyDescriptor : Int := 0

/-- A descriptor that `accept` has returned. -/
structure Descriptor where
  fd : Int
  pos : 0 < fd

/-- The value of an `SSL*`. -/
abbrev SslHandle : Type := Nat

/-- What a process holds: whether `sockfd_` is open, the open descriptors of
clients, and the live SSL objects. -/
structure Process where
  listening : Bool
  fds : List Int
  ssls : List SslHandle
  deriving DecidableEq

namespace Process

/-- `close`, on the descriptor of a client. -/
def close (fd : Int) (p : Process) : Process := { p with fds := p.fds.erase fd }

/-- `SSL_free`. -/
def sslFree (ssl : SslHandle) (p : Process) : Process :=
  { p with ssls := p.ssls.erase ssl }

/-- `close(sockfd_)`. -/
def closeListener (p : Process) : Process := { p with listening := false }

end Process

/-! ## The outcomes of one iteration -/

/-- What `accept` comes to. -/
inductive Accept where
  /-- -1 -/
  | failed
  | accepted (client : Descriptor)

/-- What the calls in `sslHandshake` come to. -/
inductive Handshake where
  /-- `SSL_new` returns a null pointer -/
  | noObject
  /-- `SSL_accept` fails -/
  | refused (ssl : SslHandle)
  | established (ssl : SslHandle)

/-- What `fork` comes to. -/
inductive Fork where
  /-- 0: this process is the child -/
  | child
  /-- the id of the child -/
  | parent (pid : Nat)
  /-- -1 -/
  | failed

/-- The outcomes of an iteration of the plain server.  A call that is not made has
no effect, whatever its outcome is here. -/
structure PlainIntake where
  accept : Accept
  fork : Fork

/-- The outcomes of an iteration of the TLS server. -/
structure TlsIntake where
  accept : Accept
  handshake : Handshake
  fork : Fork

/-! ## The client and its connections -/

/-- `ClientConnection`; what it only logs is left out. -/
structure ClientConnection where
  sockfd : Int := kInvalidSocket

/-- `~ClientConnection`. -/
def ClientConnection.destroy (client : ClientConnection) (p : Process) : Process :=
  if client.sockfd > 0 then p.close client.sockfd else p

namespace HttpConnection

/-- `HttpConnection::closeConnection`; the descriptor it leaves in its argument
is returned. -/
def closeConnection (sockfd : Int) (p : Process) : Int × Process :=
  if sockfd > 0 then (kEmptyDescriptor, p.close sockfd) else (kInvalidSocket, p)

/-- `~HttpConnection`, and then the destructor of its member `client_`. -/
def destroy (client : ClientConnection) (p : Process) : Process :=
  let (sockfd, p) := closeConnection client.sockfd p
  ClientConnection.destroy { sockfd := sockfd } p

end HttpConnection

/-- `~HttpsConnection`, and then that of its base class.  `SSL_shutdown` frees
nothing. -/
def HttpsConnection.destroy (ssl : SslHandle) (client : ClientConnection)
    (p : Process) : Process :=
  HttpConnection.destroy client (p.sslFree ssl)

/-! ## The loops -/

namespace HttpServer

/-- `acceptConnection`. -/
def acceptConnection (outcome : Accept) (p : Process) :
    ClientConnection × Process :=
  match outcome with
  | .failed => ({}, p)
  | .accepted client =>
      ({ sockfd := client.fd }, { p with fds := client.fd :: p.fds })

/-- One iteration.  The child moves `client` into the connection, which leaves the
number in `client` too, but exits without destroying `client`. -/
def intakeTurn (p : Process) (outcome : PlainIntake) : Turn Process Process :=
  let (client, p) := acceptConnection outcome.accept p
  if client.sockfd = kInvalidSocket then .next (client.destroy p)
  else
    match outcome.fork with
    | .child => .stop (HttpConnection.destroy client p.closeListener)
    | .parent _ => .next (client.destroy p)
    | .failed => .next (client.destroy p)

/-- `HttpServer::clientIntakeCycle`; there is no test at the head of its loop, and
what a child holds when it exits is the result. -/
def clientIntakeCycle : Loop Process PlainIntake Process where
  exit _ := none
  turn := intakeTurn

end HttpServer

namespace HttpsServer

/-- `sslHandshake`. -/
def sslHandshake (outcome : Handshake) (p : Process) : Option SslHandle × Process :=
  match outcome with
  | .noObject => (none, p)
  | .refused ssl => (none, { p with ssls := ssl :: p.ssls }.sslFree ssl)
  | .established ssl => (some ssl, { p with ssls := ssl :: p.ssls })

/-- One iteration. -/
def intakeTurn (p : Process) (outcome : TlsIntake) : Turn Process Process :=
  let (client, p) := HttpServer.acceptConnection outcome.accept p
  if client.sockfd = kInvalidSocket then .next (client.destroy p)
  else
    match sslHandshake outcome.handshake p with
    | (none, p) => .next (client.destroy p)
    | (some ssl, p) =>
      match outcome.fork with
      | .child => .stop (HttpsConnection.destroy ssl client p.closeListener)
      -- the parent goes on without `SSL_free`
      | .parent _ => .next (client.destroy p)
      | .failed => .next (client.destroy p)

/-- `HttpsServer::clientIntakeCycle`. -/
def clientIntakeCycle : Loop Process TlsIntake Process where
  exit _ := none
  turn := intakeTurn

end HttpsServer

/-- A server that has had no client yet. -/
def listeningOnly : Process := { listening := true, fds := [], ssls := [] }

/-! ## What one iteration releases -/

/-- The descriptor of a client is positive, so its destructor closes it. -/
theorem destroy_accepted (client : Descriptor) (p : Process) :
    ClientConnection.destroy { sockfd := client.fd }
      { p with fds := client.fd :: p.fds } = p := by
  rw [ClientConnection.destroy, if_pos client.pos, Process.close,
    List.erase_cons_head]

theorem destroy_invalid (p : Process) : ClientConnection.destroy {} p = p :=
  if_neg (by decide)

theorem descriptor_valid (client : Descriptor) : client.fd ≠ kInvalidSocket := by
  have hpos := client.pos
  unfold kInvalidSocket
  omega

/-- A connection closes its descriptor once: the destructor of the member finds it
empty. -/
theorem connection_destroy (client : Descriptor) (p : Process) :
    HttpConnection.destroy { sockfd := client.fd }
      { p with fds := client.fd :: p.fds } = p := by
  have hempty : ¬ kEmptyDescriptor > 0 := by decide
  simp only [HttpConnection.destroy, HttpConnection.closeConnection,
    if_pos client.pos, ClientConnection.destroy, if_neg hempty, Process.close,
    List.erase_cons_head]

namespace HttpServer

/-- The plain server holds after an iteration what it held before; a child exits
with the listening socket closed and nothing else changed. -/
theorem intakeTurn_eq (p : Process) (outcome : PlainIntake) :
    intakeTurn p outcome = .next p ∨
      outcome.fork = .child ∧ intakeTurn p outcome = .stop p.closeListener := by
  obtain ⟨accept, fork⟩ := outcome
  cases accept with
  | failed => exact Or.inl (congrArg Turn.next (destroy_invalid p))
  | accepted client =>
    have hvalid := descriptor_valid client
    cases fork with
    | child =>
      refine Or.inr ⟨rfl, ?_⟩
      exact (if_neg hvalid).trans
        (congrArg Turn.stop (connection_destroy client p.closeListener))
    | parent pid =>
      apply Or.inl
      exact (if_neg hvalid).trans (congrArg Turn.next (destroy_accepted client p))
    | failed =>
      apply Or.inl
      exact (if_neg hvalid).trans (congrArg Turn.next (destroy_accepted client p))

/-- So it holds the same at the start of every iteration. -/
theorem goes_clientIntakeCycle {outcomes : List PlainIntake} {p q : Process}
    (h : clientIntakeCycle.goes p outcomes = some q) : q = p := by
  induction outcomes with
  | nil =>
    rw [Loop.goes_nil, Option.some_inj] at h
    exact h.symm
  | cons outcome outcomes ih =>
    obtain ⟨_, p', hturn, hrest⟩ := Loop.goes_cons_eq_some h
    change intakeTurn p outcome = .next p' at hturn
    rcases intakeTurn_eq p outcome with hnext | ⟨_, hstop⟩
    · rw [hnext] at hturn
      cases hturn
      exact ih hrest
    · rw [hstop] at hturn
      cases hturn

end HttpServer

/-- The SSL object with which an iteration goes on to `fork`, if it does. -/
def TlsIntake.established (outcome : TlsIntake) : Option SslHandle :=
  match outcome.accept, outcome.handshake with
  | .accepted _, .established ssl => some ssl
  | _, _ => none

namespace HttpsServer

/-- A handshake that fails frees its object. -/
theorem sslHandshake_none {outcome : Handshake} {p q : Process}
    (h : sslHandshake outcome p = (none, q)) : q = p := by
  cases outcome with
  | noObject =>
    cases h
    rfl
  | refused ssl =>
    cases h
    rw [Process.sslFree, List.erase_cons_head]
  | established ssl => cases h

/-- A child of the TLS server frees its SSL object and closes its descriptor. -/
theorem connection_destroy (ssl : SslHandle) (client : Descriptor) (p : Process) :
    HttpsConnection.destroy ssl { sockfd := client.fd }
      { p with fds := client.fd :: p.fds, ssls := ssl :: p.ssls } = p := by
  rw [HttpsConnection.destroy, Process.sslFree, List.erase_cons_head]
  exact UniServer.Http.connection_destroy client p

/-- The TLS server keeps the SSL object of each handshake that succeeds, and
nothing else; a child exits with what the parent held before, but for the
listening socket. -/
theorem intakeTurn_eq (p : Process) (outcome : TlsIntake) :
    intakeTurn p outcome =
        .next { p with ssls := outcome.established.toList ++ p.ssls } ∨
      outcome.fork = .child ∧ intakeTurn p outcome = .stop p.closeListener := by
  obtain ⟨accept, handshake, fork⟩ := outcome
  cases accept with
  | failed => exact Or.inl (congrArg Turn.next (destroy_invalid p))
  | accepted client =>
    have hvalid := descriptor_valid client
    cases handshake with
    | noObject =>
      exact Or.inl ((if_neg hvalid).trans
        (congrArg Turn.next (destroy_accepted client p)))
    | refused ssl =>
      refine Or.inl ((if_neg hvalid).trans (congrArg Turn.next ?_))
      have hfreed := @sslHandshake_none (.refused ssl)
        { p with fds := client.fd :: p.fds } _ rfl
      rw [hfreed]
      exact destroy_accepted client p
    | established ssl =>
      have hkept := destroy_accepted client { p with ssls := ssl :: p.ssls }
      cases fork with
      | child =>
        refine Or.inr ⟨rfl, (if_neg hvalid).trans (congrArg Turn.stop ?_)⟩
        exact connection_destroy ssl client p.closeListener
      | parent pid =>
          exact Or.inl ((if_neg hvalid).trans (congrArg Turn.next hkept))
      | failed => exact Or.inl ((if_neg hvalid).trans (congrArg Turn.next hkept))

/-- At the start of every iteration the TLS server holds the SSL objects of all
earlier handshakes that succeeded. -/
theorem goes_clientIntakeCycle {outcomes : List TlsIntake} {p q : Process}
    (h : clientIntakeCycle.goes p outcomes = some q) :
    q = { p with
          ssls := (outcomes.filterMap TlsIntake.established).reverse ++
            p.ssls } := by
  induction outcomes generalizing p with
  | nil =>
    rw [Loop.goes_nil, Option.some_inj] at h
    exact h.symm
  | cons outcome outcomes ih =>
    obtain ⟨_, p', hturn, hrest⟩ := Loop.goes_cons_eq_some h
    change intakeTurn p outcome = .next p' at hturn
    rcases intakeTurn_eq p outcome with hnext | ⟨_, hstop⟩
    · rw [hnext] at hturn
      cases hturn
      rw [ih hrest]
      cases hssl : outcome.established with
      | none => rw [List.filterMap_cons_none hssl, Option.toList_none,
          List.nil_append]
      | some ssl =>
        rw [List.filterMap_cons_some hssl, List.reverse_cons, List.append_assoc]
        rfl
    · rw [hstop] at hturn
      cases hturn

end HttpsServer

/-! ## What the parent keeps -/

/-- No descriptor of a client is open, and no SSL object made for one is live. -/
def Process.HoldsNoClient (p : Process) : Prop := p.fds = [] ∧ p.ssls = []

/-- The parent of the plain server never holds anything of a client at the start of
an iteration.  The parent of the TLS server does not exactly until a handshake has
succeeded. -/
theorem holdsNoClient_iff (plain : List PlainIntake) (tls : List TlsIntake) :
    (∀ p, HttpServer.clientIntakeCycle.goes listeningOnly plain = some p →
      p.HoldsNoClient) ∧
    (∀ p, HttpsServer.clientIntakeCycle.goes listeningOnly tls = some p →
      (p.HoldsNoClient ↔ ∀ outcome ∈ tls, outcome.established = none)) := by
  refine ⟨?_, ?_⟩
  · intro p h
    rw [HttpServer.goes_clientIntakeCycle h]
    exact ⟨rfl, rfl⟩
  · intro p h
    rw [HttpsServer.goes_clientIntakeCycle h]
    have hfds : listeningOnly.fds = [] := rfl
    have hssls : listeningOnly.ssls = [] := rfl
    simp [Process.HoldsNoClient, hfds, hssls]

/-- A client with which the handshake succeeds. -/
def tlsClient : TlsIntake where
  accept := .accepted { fd := 5, pos := by decide }
  handshake := .established 1
  fork := .parent 100

theorem holdsNoClient_iff_tlsClient :
    Process.HoldsNoClient { listening := true, fds := [], ssls := [1] } ↔
      ∀ outcome ∈ [tlsClient], outcome.established = none :=
  (holdsNoClient_iff [] [tlsClient]).2 _ rfl

/-- After that client the SSL object is still live in the parent. -/
theorem ssl_kept_by_parent :
    ¬ ((∀ outcomes p,
        HttpServer.clientIntakeCycle.goes listeningOnly outcomes = some p →
        p.HoldsNoClient) ∧
      (∀ outcomes p,
        HttpsServer.clientIntakeCycle.goes listeningOnly outcomes = some p →
        p.HoldsNoClient)) := by
  rintro ⟨_, htls⟩
  have hgoes : HttpsServer.clientIntakeCycle.goes listeningOnly [tlsClient] =
      some { listening := true, fds := [], ssls := [1] } := rfl
  have hkept : [1] = [] := (htls [tlsClient] _ hgoes).2
  cases hkept

end UniServer.Http
