/-
  Http/ServerLife.lean --- server objects from construction to destruction.

  A program constructs servers of both kinds, makes them listen, stops them and
  destroys them, in any order and as many as it wants.  The objects share the
  descriptors of the process and the contexts of the TLS library.  A call for an
  object that is gone is not a step, and a call of `listen` that succeeds does not
  return: no other step comes after it.

  The books of `Foundation/Ledger` are kept for descriptors (`run_holds`) and for
  contexts (`run_contexts`).  Log calls are left out.
-/
import UniServer.Foundation.Ledger
import UniServer.Foundation.Machine
import UniServer.Http.ListenerSockets
import UniServer.Http.Process

set_option autoImplicit false

namespace UniServer.Http

open UniServer.Foundation

/-! ## Contexts -/

/-- The calls of `SSL_CTX_new` that have succeeded, whose contexts are numbered in
order, and what was given to `SSL_CTX_free`. -/
structure Contexts where
  created : Nat
  freed : List Nat
  deriving DecidableEq

/-- What the constructor of `HttpsServer` is given by the library: whether there is
a context, what the two calls that load files return, what
`SSL_CTX_check_private_key` returns, and the text of the error. -/
structure TlsSetup where
  created : Bool
  certificate : Int
  key : Int
  agrees : Int
  error : Bytes

/-- A server object; that of an `HttpsServer` has a context. -/
structure Server where
  http : HttpServer := {}
  ctx : Option Nat := none

/-- The message of the last of the four exceptions, which alone is not the
library's. -/
def keyMismatch : Bytes :=
  ascii "Private key does not match certificate — server cannot start in HTTPS mode"

/-- `HttpsServer::HttpsServer`; an exception comes with its message.  The context
belongs to no object until the constructor has returned. -/
def HttpsServer.construct (setup : TlsSetup) (ctxs : Contexts) :
    Except Bytes Server × Contexts :=
  if !setup.created then (.error setup.error, ctxs)
  else
    let ctx := ctxs.created
    let ctxs := { ctxs with created := ctxs.created + 1 }
    if setup.certificate ≤ 0 then (.error setup.error, ctxs)
    else if setup.key ≤ 0 then (.error setup.error, ctxs)
    else if setup.agrees = 0 then (.error keyMismatch, ctxs)
    else (.ok { ctx := some ctx }, ctxs)

/-! ## Listening -/

/-- `kMaxConnections` -/
def kMaxConnections : Int := 20

/-- `listenInternal` up to `clientIntakeCycle`, which does not return; `listens` is
what `::listen` comes to. -/
def HttpServer.listenInternal (max_connections bufsize : Int) (listens : Bool) :
    Bool :=
  if max_connections ≤ 0 then false
  else if bufsize ≤ 0 then false
  else listens

/-- The arguments of `listen`, and what its calls come to.  Host and port are seen
by `getaddrinfo` only. -/
structure Listen where
  resolved : Option (List (AddrInfo × Attempt))
  max_connections : Int := kMaxConnections
  bufsize : Int := kReceptionBufSize
  listens : Bool

/-! ## Programs -/

/-- A call of the program. -/
inductive ServerCall where
  /-- `HttpServer()` -/
  | construct
  /-- `HttpsServer(cert, key)` -/
  | constructTls (setup : TlsSetup)
  | listen (i : Nat) (call : Listen)
  | stopListen (i : Nat)
  | swap (i j : Nat)
  | destroy (i : Nat)

/-- Why a call is not a step. -/
inductive NoStep where
  /-- there is no such object, or it was destroyed -/
  | noObject
  /-- a call of `listen` has not returned -/
  | blocked
  deriving DecidableEq

/-- The objects in the order of their constructors, with none where there is no
object any more, or never was; what they share; and the object that is in its
`clientIntakeCycle`, with the size of the buffer. -/
structure Servers where
  objects : List (Option Server) := []
  descriptors : Descriptors
  nodes : Nodes
  contexts : Contexts := { created := 0, freed := [] }
  serving : Option (Nat × Int) := none

namespace Servers

/-- A call for the object of that number. -/
def on (w : Servers) (i : Nat) (f : Server → Except NoStep Servers) :
    Except NoStep Servers :=
  match w.objects[i]? with
  | some (some server) => f server
  | _ => .error .noObject

/-- `HttpServer::listen`, and that of `HttpsServer`. -/
def listen (w : Servers) (i : Nat) (server : Server) (call : Listen) : Servers :=
  let built :=
    HttpServer.buildSocket call.resolved server.http w.descriptors w.nodes
  let serves := built.ret &&
    HttpServer.listenInternal call.max_connections call.bufsize call.listens
  { w with
    objects := w.objects.set i (some { server with http := built.server }),
    descriptors := built.descriptors,
    nodes := built.nodes,
    serving := if serves then some (i, call.bufsize) else none }

/-- `HttpServer::stopListen` -/
def stopListen (w : Servers) (i : Nat) (server : Server) : Servers :=
  let (sockfd, ds) := HttpServer.closeConnection server.http.sockfd w.descriptors
  { w with
    objects :=
      w.objects.set i
        (some { server with http := { server.http with sockfd := sockfd } }),
    descriptors := ds }

/-- `HttpServer::swap` of the objects with these numbers; the contexts stay. -/
def swap (w : Servers) (i j : Nat) (server other : Server) : Servers :=
  if i = j then w
  else
    { w with
      objects := (w.objects.set i (some { server with http := other.http })).set j
        (some { other with http := server.http }) }

/-- `~HttpsServer` and `~HttpServer` -/
def destroy (w : Servers) (i : Nat) (server : Server) : Servers :=
  let (ds, ns) := HttpServer.destroy server.http w.descriptors w.nodes
  { w with
    objects := w.objects.set i none,
    descriptors := ds,
    nodes := ns,
    contexts :=
      { w.contexts with freed := w.contexts.freed ++ server.ctx.toList } }

/-- The constructor of `HttpsServer`; behind an exception the base object is
destroyed. -/
def constructTls (w : Servers) (setup : TlsSetup) : Servers :=
  match HttpsServer.construct setup w.contexts with
  | (.ok server, ctxs) =>
      { w with objects := w.objects ++ [some server], contexts := ctxs }
  | (.error _, ctxs) =>
      let (ds, ns) := HttpServer.destroy {} w.descriptors w.nodes
      { w with
        objects := w.objects ++ [none],
        descriptors := ds,
        nodes := ns,
        contexts := ctxs }

/-- One call. -/
def step (w : Servers) (call : ServerCall) : Except NoStep Servers :=
  if w.serving.isSome then .error .blocked
  else
    match call with
    | .construct => .ok { w with objects := w.objects ++ [some {}] }
    | .constructTls setup => .ok (w.constructTls setup)
    | .listen i call => w.on i fun server => .ok (w.listen i server call)
    | .stopListen i => w.on i fun server => .ok (w.stopListen i server)
    | .swap i j =>
        w.on i fun server => w.on j fun other => .ok (w.swap i j server other)
    | .destroy i => w.on i fun server => .ok (w.destroy i server)

/-- A process that has no server yet. -/
def start (ds : Descriptors) (ns : Nodes) : Servers :=
  { descriptors := ds, nodes := ns }

/-- The state after these calls. -/
def run (w : Servers) (calls : List ServerCall) : Except NoStep Servers :=
  Machine.run step w calls

theorem on_eq_ok {w w' : Servers} {i : Nat} {f : Server → Except NoStep Servers} :
    w.on i f = .ok w' ↔
      ∃ server, w.objects[i]? = some (some server) ∧ f server = .ok w' := by
  unfold on
  split
  · rename_i server hobject
    simp [hobject]
  · rename_i hnone
    simp only [reduceCtorEq, false_iff, not_exists, not_and]
    exact fun server hobject => (hnone server hobject).elim

/-- What a call can do. -/
inductive Step (w : Servers) : ServerCall → Servers → Prop where
  | construct : Step w .construct { w with objects := w.objects ++ [some {}] }
  | constructTls (setup : TlsSetup) :
      Step w (.constructTls setup) (w.constructTls setup)
  | listen {i : Nat} {server : Server} (call : Listen)
      (hobject : w.objects[i]? = some (some server)) :
      Step w (.listen i call) (w.listen i server call)
  | stopListen {i : Nat} {server : Server}
      (hobject : w.objects[i]? = some (some server)) :
      Step w (.stopListen i) (w.stopListen i server)
  | swap {i j : Nat} {server other : Server}
      (hobject : w.objects[i]? = some (some server))
      (hother : w.objects[j]? = some (some other)) :
      Step w (.swap i j) (w.swap i j server other)
  | destroy {i : Nat} {server : Server}
      (hobject : w.objects[i]? = some (some server)) :
      Step w (.destroy i) (w.destroy i server)

theorem step_cases {w w' : Servers} {call : ServerCall} (h : step w call = .ok w') :
    w.serving = none ∧ Step w call w' := by
  unfold step at h
  split at h
  · cases h
  · rename_i hserving
    refine ⟨by simpa using hserving, ?_⟩
    cases call with
    | construct =>
      cases h
      exact .construct
    | constructTls setup =>
      cases h
      exact .constructTls setup
    | listen i call =>
      obtain ⟨server, hobject, heq⟩ := on_eq_ok.mp h
      cases heq
      exact .listen call hobject
    | stopListen i =>
      obtain ⟨server, hobject, heq⟩ := on_eq_ok.mp h
      cases heq
      exact .stopListen hobject
    | swap i j =>
      obtain ⟨server, hobject, hrest⟩ := on_eq_ok.mp h
      obtain ⟨other, hother, heq⟩ := on_eq_ok.mp hrest
      cases heq
      exact .swap hobject hother
    | destroy i =>
      obtain ⟨server, hobject, heq⟩ := on_eq_ok.mp h
      cases heq
      exact .destroy hobject

/-- A constructor that throws behind `SSL_CTX_new`: `~HttpsServer`, which would free
the context, is not called. -/
def leaks : ServerCall → Bool
  | .constructTls setup =>
      setup.created &&
        (decide (setup.certificate ≤ 0) || decide (setup.key ≤ 0) ||
          decide (setup.agrees = 0))
  | _ => false

/-- There is no context, or it is lost, or a new object has it. -/
theorem construct_cases (setup : TlsSetup) (ctxs : Contexts) :
    ((∃ e, (HttpsServer.construct setup ctxs).1 = .error e) ∧
        (HttpsServer.construct setup ctxs).2 = ctxs ∧
        leaks (.constructTls setup) = false) ∨
      (HttpsServer.construct setup ctxs).2 =
          { ctxs with created := ctxs.created + 1 } ∧
        ((∃ e, (HttpsServer.construct setup ctxs).1 = .error e) ∧
            leaks (.constructTls setup) = true ∨
          (HttpsServer.construct setup ctxs).1 = .ok { ctx := some ctxs.created } ∧
            leaks (.constructTls setup) = false) := by
  obtain ⟨created, certificate, key, agrees, error⟩ := setup
  cases created with
  | false => exact Or.inl ⟨⟨_, rfl⟩, rfl, rfl⟩
  | true =>
    refine Or.inr ?_
    unfold HttpsServer.construct leaks
    by_cases hcertificate : certificate ≤ 0
    · simp [hcertificate]
    · by_cases hkey : key ≤ 0
      · simp [hcertificate, hkey]
      · by_cases hagrees : agrees = 0
        · simp [hcertificate, hkey, hagrees]
        · simp [hcertificate, hkey, hagrees]

/-- What comes of a constructor of `HttpsServer`: a new object or none, and
contexts. -/
theorem constructTls_cases (w : Servers) (setup : TlsSetup) :
    ∃ slot created, w.constructTls setup =
        { w with
          objects := w.objects ++ [slot],
          contexts := { w.contexts with created := created } } ∧
      (slot = none ∧ created = w.contexts.created ∧
          leaks (.constructTls setup) = false ∨
        slot = none ∧ created = w.contexts.created + 1 ∧
          leaks (.constructTls setup) = true ∨
        slot = some { ctx := some w.contexts.created } ∧
          created = w.contexts.created + 1 ∧
            leaks (.constructTls setup) = false) := by
  -- `~HttpServer` finds neither a list nor a descriptor
  have hbase : HttpServer.destroy {} w.descriptors w.nodes =
      (w.descriptors, w.nodes) := by
    simp [HttpServer.destroy, HttpServer.closeConnection, Nodes.freeaddrinfo,
      kEmptyDescriptor]
  have hcases := construct_cases setup w.contexts
  unfold constructTls
  cases hmade : HttpsServer.construct setup w.contexts with
  | mk result ctxs =>
    rw [hmade] at hcases
    rcases hcases with ⟨⟨e, rfl⟩, rfl, hleaks⟩ |
      ⟨rfl, ⟨⟨e, rfl⟩, hleaks⟩ | ⟨rfl, hleaks⟩⟩
    · refine ⟨none, w.contexts.created, ?_, Or.inl ⟨rfl, rfl, hleaks⟩⟩
      simp only [hbase]
    · refine ⟨none, w.contexts.created + 1, ?_, Or.inr (Or.inl ⟨rfl, rfl, hleaks⟩)⟩
      simp only [hbase]
    · exact ⟨some { ctx := some w.contexts.created }, w.contexts.created + 1, rfl,
        Or.inr (Or.inr ⟨rfl, rfl, hleaks⟩)⟩

end Servers

/-! ## One object and the descriptors -/

namespace Descriptors

/-- The descriptors of the open sockets. -/
def fds (ds : Descriptors) : List Int := ds.sockets.map Socket.fd

/-- What a call for one object does to the descriptors, when the object holds
`before` at first and `after` at the end. -/
structure Change (before after : List Int) (ds ds' : Descriptors) : Prop where
  /-- what is opened and closed comes out -/
  books : ∃ opens closes, ds'.opened = ds.opened ++ opens ∧
    ds'.closed = ds.closed ++ closes ∧ (before ++ opens).Perm (closes ++ after)
  /-- what others hold stays open -/
  opens : ∀ rest, ds.fds.Nodup → ds.fds.Perm (before ++ rest) →
    ds'.fds.Nodup ∧ ds'.fds.Perm (after ++ rest)
  /-- a socket that is not the object's is not touched -/
  frame : ∀ s ∈ ds.sockets, s.fd ∉ before → s ∈ ds'.sockets

end Descriptors

namespace HttpServer

open Descriptors

variable {server : HttpServer} {ds : Descriptors}

/-- Without the object's own the open descriptors are those of the others. -/
theorem fds_others {rest : List Int} (hnodup : ds.fds.Nodup)
    (hperm : ds.fds.Perm (server.held ++ rest)) :
    ((server.others ds).map Socket.fd).Nodup ∧
      ((server.others ds).map Socket.fd).Perm rest := by
  unfold others
  unfold held at hperm
  by_cases hpos : 0 < server.sockfd
  · rw [if_pos hpos] at hperm ⊢
    have hmap : (ds.sockets.filter fun s => s.fd ≠ server.sockfd).map Socket.fd =
        ds.fds.filter fun fd => fd ≠ server.sockfd := by
      rw [fds, List.filter_map]
      rfl
    have hnot : ∀ fd ∈ rest, decide (fd ≠ server.sockfd) = true := by
      intro fd hfd
      have hsplit := hperm.nodup_iff.mp hnodup
      rw [List.singleton_append, List.nodup_cons] at hsplit
      exact decide_eq_true fun hsame => hsplit.1 (hsame ▸ hfd)
    rw [hmap]
    refine ⟨hnodup.filter _, (hperm.filter _).trans ?_⟩
    rw [List.singleton_append, List.filter_cons_of_neg (by simp),
      List.filter_eq_self.mpr hnot]
  · rw [if_neg hpos] at hperm ⊢
    exact ⟨hnodup, hperm⟩

theorem mem_others {s : Socket} (hs : s ∈ ds.sockets) (hnot : s.fd ∉ server.held) :
    s ∈ server.others ds := by
  unfold others
  unfold held at hnot
  by_cases hpos : 0 < server.sockfd
  · rw [if_pos hpos] at hnot ⊢
    exact List.mem_filter.mpr ⟨hs, decide_eq_true (by simpa using hnot)⟩
  · rw [if_neg hpos]
    exact hs

/-- `closeConnection` on the descriptor of the object. -/
theorem closeConnection_eq (server : HttpServer) (ds : Descriptors) :
    (closeConnection server.sockfd ds).1 ≤ 0 ∧
      (closeConnection server.sockfd ds).2 =
        { sockets := server.others ds, opened := ds.opened,
          closed := ds.closed ++ server.held } := by
  unfold closeConnection others held
  by_cases hpos : server.sockfd > 0
  · rw [if_pos hpos, if_pos hpos, if_pos hpos]
    exact ⟨Int.le_refl _, rfl⟩
  · rw [if_neg hpos, if_neg hpos, if_neg hpos, List.append_nil]
    exact ⟨show kInvalidSocket ≤ 0 by decide, rfl⟩

theorem change_closeConnection (server : HttpServer) (ds : Descriptors) :
    Change server.held [] ds (closeConnection server.sockfd ds).2 := by
  rw [(closeConnection_eq server ds).2]
  exact
    { books := ⟨[], server.held, by simp⟩
      opens := fun rest hnodup hperm => fds_others hnodup hperm
      frame := fun s hs hnot => mem_others hs hnot }

/-- An object without a descriptor holds none. -/
theorem held_of_not_pos (h : ¬ 0 < server.sockfd) : server.held = [] := if_neg h

theorem held_of_pos (h : 0 < server.sockfd) : server.held = [server.sockfd] :=
  if_pos h

theorem change_buildSocket (resolved : Option (List (AddrInfo × Attempt)))
    (ns : Nodes) (howns : server.Owns ds) :
    Change server.held (buildSocket resolved server ds ns).server.held ds
      (buildSocket resolved server ds ns).descriptors := by
  obtain ⟨fds, hnot, ⟨_, hserver, hds⟩ |
    ⟨servinfo, before, p, attempt, after, fd, _, hbound, _, hserver, hds⟩⟩ :=
    buildSocket_cases resolved ns howns
  · rw [hserver, hds]
    exact
      { books := ⟨fds, fds, rfl, rfl, List.perm_append_comm⟩
        opens := fun rest hnodup hperm => ⟨hnodup, hperm⟩
        frame := fun s hs _ => hs }
  · have hheld : held { sockfd := fd, servinfo := p :: after.map Prod.fst } =
      [fd] :=
      if_pos hbound.pos
    rw [hserver, hds, hheld]
    have hfresh : fd ∉ ds.fds := by
      intro hmem
      obtain ⟨s, hs, hfd⟩ := List.mem_map.mp hmem
      exact hbound.fresh s hs hfd
    refine
      { books := ⟨fds ++ [fd], fds ++ server.held, ?_, ?_, ?_⟩
        opens := fun rest hnodup hperm => ?_
        frame := fun s hs hnot => List.mem_cons_of_mem _ (mem_others hs hnot) }
    · exact List.append_assoc ..
    · exact List.append_assoc ..
    · rw [← List.append_assoc]
      exact List.perm_append_comm.append_right _
    · obtain ⟨hothers, hrest⟩ := fds_others hnodup hperm
      refine ⟨List.nodup_cons.mpr ⟨?_, hothers⟩, hrest.cons fd⟩
      intro hmem
      exact hfresh (hperm.mem_iff.mpr
        (List.mem_append_right _ (hrest.mem_iff.mp hmem)))

end HttpServer

/-! ## Runs and descriptors -/

/-- The descriptor of an object that is there. -/
def heldBy : Option Server → List Int
  | none => []
  | some server => server.http.held

namespace Servers

/-- The descriptors of all objects. -/
def held (w : Servers) : List Int := holdings heldBy w.objects

/-- What the process holds, when it held `ds₀` before the first server. -/
structure Holds (ds₀ : Descriptors) (w : Servers) : Prop where
  /-- open is what was open, and the descriptors of the objects -/
  sockets : w.descriptors.fds.Perm (ds₀.fds ++ w.held)
  /-- no descriptor belongs to two of them -/
  once : w.descriptors.fds.Nodup
  /-- what was opened was closed, or belongs to an object -/
  books : ∃ opens closes, w.descriptors.opened = ds₀.opened ++ opens ∧
    w.descriptors.closed = ds₀.closed ++ closes ∧ Reconciled opens closes w.held
  /-- a socket from before is as it was -/
  untouched : ∀ s ∈ ds₀.sockets, s ∈ w.descriptors.sockets

section

variable {ds₀ : Descriptors} {w : Servers}

theorem holds_start (hnodup : ds₀.fds.Nodup) (ns : Nodes) :
    Holds ds₀ (start ds₀ ns) where
  sockets := by
    show ds₀.fds.Perm (ds₀.fds ++ [])
    rw [List.append_nil]
  once := hnodup
  books := ⟨[], [], (List.append_nil _).symm, (List.append_nil _).symm, .refl _⟩
  untouched _ hs := hs

/-- The holdings of the objects may come in another order. -/
theorem Holds.congr (h : Holds ds₀ w) {w' : Servers}
    (hds : w'.descriptors = w.descriptors) (hheld : w'.held.Perm w.held) :
    Holds ds₀ w' where
  sockets := by
    rw [hds]
    exact h.sockets.trans (hheld.symm.append_left _)
  once := hds ▸ h.once
  books := by
    obtain ⟨opens, closes, hopened, hclosed, hbalanced⟩ := h.books
    rw [hds]
    exact ⟨opens, closes, hopened, hclosed, hbalanced.congr hheld⟩
  untouched := by
    rw [hds]
    exact h.untouched

/-- The object owns its descriptor. -/
theorem Holds.owns (h : Holds ds₀ w) {i : Nat} {server : Server}
    (hobject : w.objects[i]? = some (some server)) :
    server.http.Owns w.descriptors := by
  intro hpos
  have hmem : server.http.sockfd ∈ w.held := by
    have hown : server.http.sockfd ∈ heldBy (some server) := by
      rw [heldBy, HttpServer.held_of_pos hpos]
      exact List.mem_singleton_self _
    exact mem_holdings hobject hown
  exact List.mem_map.mp (h.sockets.mem_iff.mpr (List.mem_append_right _ hmem))

/-- One object changes, as its own account says. -/
theorem Holds.set (h : Holds ds₀ w) {i : Nat} {server : Server}
    (slot : Option Server) {ds : Descriptors}
    (hobject : w.objects[i]? = some (some server))
    (hchange : Descriptors.Change server.http.held (heldBy slot) w.descriptors ds)
    {w' : Servers} (hobjects : w'.objects = w.objects.set i slot)
    (hds : w'.descriptors = ds) : Holds ds₀ w' := by
  have hi : i < w.objects.length := (List.getElem?_eq_some_iff.mp hobject).1
  have hbefore : w.held.Perm
      (server.http.held ++ holdings heldBy (w.objects.eraseIdx i)) :=
    holdings_getElem? hobject
  have hafter : w'.held.Perm
      (heldBy slot ++ holdings heldBy (w.objects.eraseIdx i)) := by
    rw [held, hobjects]
    exact holdings_set hi slot
  -- the own descriptors to the front
  have hopen : w.descriptors.fds.Perm
      (server.http.held ++
        (ds₀.fds ++ holdings heldBy (w.objects.eraseIdx i))) := by
    refine (h.sockets.trans (hbefore.append_left _)).trans ?_
    rw [← List.append_assoc, ← List.append_assoc]
    exact List.perm_append_comm.append_right _
  obtain ⟨honce, hopen'⟩ := hchange.opens _ h.once hopen
  obtain ⟨opens, closes, hopened, hclosed, hbalanced⟩ := h.books
  obtain ⟨opens', closes', hopened', hclosed', hown⟩ := hchange.books
  subst hds
  refine ⟨?_, honce, ?_, ?_⟩
  · refine (hopen'.trans ?_).trans (hafter.symm.append_left _)
    rw [← List.append_assoc, ← List.append_assoc]
    exact List.perm_append_comm.append_right _
  · refine ⟨opens ++ opens', closes ++ closes', ?_, ?_,
      hbalanced.update hbefore hown hafter⟩
    · rw [hopened', hopened, List.append_assoc]
    · rw [hclosed', hclosed, List.append_assoc]
  · intro s hs
    refine hchange.frame s (h.untouched s hs) fun hmem => ?_
    have hsplit := (h.sockets.nodup_iff.mp h.once)
    exact (List.disjoint_of_nodup_append hsplit) (List.mem_map_of_mem hs)
      (hbefore.mem_iff.mpr (List.mem_append_left _ hmem))

/-- A new object holds nothing yet, and a constructor that throws leaves none. -/
theorem Holds.snoc (h : Holds ds₀ w) (slot : Option Server)
    (hslot : heldBy slot = []) {w' : Servers}
    (hobjects : w'.objects = w.objects ++ [slot])
    (hds : w'.descriptors = w.descriptors) : Holds ds₀ w' := by
  refine h.congr hds ?_
  rw [held, hobjects, holdings_snoc, hslot, List.append_nil]
  exact .refl _

theorem Holds.step (h : Holds ds₀ w) {call : ServerCall} {w' : Servers}
    (hstep : Servers.step w call = .ok w') : Holds ds₀ w' := by
  obtain ⟨_, hstep⟩ := step_cases hstep
  cases hstep with
  | construct => exact h.snoc (some {}) rfl rfl rfl
  | constructTls setup =>
    obtain ⟨slot, created, heq, hslot⟩ := constructTls_cases w setup
    rw [heq]
    rcases hslot with ⟨rfl, _⟩ | ⟨rfl, _⟩ | ⟨rfl, _⟩
    · exact h.snoc none rfl rfl rfl
    · exact h.snoc none rfl rfl rfl
    · exact h.snoc (some { ctx := some w.contexts.created }) rfl rfl rfl
  | @listen i server call hobject =>
    exact h.set (some { server with http := _ }) hobject
      (HttpServer.change_buildSocket call.resolved w.nodes (h.owns hobject)) rfl rfl
  | @stopListen i server hobject =>
    have hclosed := HttpServer.change_closeConnection server.http w.descriptors
    have hempty : HttpServer.held { server.http with
        sockfd :=
          (HttpServer.closeConnection server.http.sockfd w.descriptors).1 } =
        [] :=
      HttpServer.held_of_not_pos
        (Int.not_lt.mpr (HttpServer.closeConnection_eq server.http w.descriptors).1)
    rw [← hempty] at hclosed
    exact h.set (some { server with http := _ }) hobject hclosed rfl rfl
  | @swap i j server other hobject hother =>
    unfold swap
    split
    · exact h
    · rename_i hij
      exact h.congr rfl (holdings_exchange hij hobject hother rfl rfl)
  | @destroy i server hobject =>
    exact h.set none hobject
      (HttpServer.change_closeConnection server.http w.descriptors) rfl rfl

theorem holds_of_run (hnodup : ds₀.fds.Nodup) {ns : Nodes} {calls : List ServerCall}
    (hrun : run (start ds₀ ns) calls = .ok w) : Holds ds₀ w :=
  Machine.run_invariant (Holds ds₀) (fun _ _ _ h hstep => h.step hstep)
    (holds_start hnodup ns) hrun

/-- In every run the open descriptors are those from before and one for each object
that has one, no two of them the same; each that was opened was closed once, or is
that of one object; and the sockets from before are never touched.  When all objects
are destroyed nothing is left open. -/
theorem run_holds (hnodup : ds₀.fds.Nodup) {ns : Nodes} {calls : List ServerCall}
    (hrun : run (start ds₀ ns) calls = .ok w) :
    Holds ds₀ w ∧
      ((∀ slot ∈ w.objects, slot = none) →
        w.descriptors.fds.Perm ds₀.fds ∧
          ∃ opens closes, w.descriptors.opened = ds₀.opened ++ opens ∧
            w.descriptors.closed = ds₀.closed ++ closes ∧ opens.Perm closes) := by
  have h := holds_of_run hnodup hrun
  refine ⟨h, fun hgone => ?_⟩
  have hnone : w.held = [] := by
    refine List.flatMap_eq_nil_iff.mpr fun slot hslot => ?_
    rw [hgone slot hslot]
    rfl
  have hsockets := h.sockets
  obtain ⟨opens, closes, hopened, hclosed, hbalanced⟩ := h.books
  rw [hnone, List.append_nil] at hsockets
  rw [Reconciled, hnone, List.append_nil] at hbalanced
  exact ⟨hsockets, opens, closes, hopened, hclosed, hbalanced⟩

end

/-! ## Runs and contexts -/

/-- The context of an object that is there. -/
def contextOf : Option Server → List Nat
  | none => []
  | some server => server.ctx.toList

/-- The contexts of all objects. -/
def contextsHeld (w : Servers) : List Nat := holdings contextOf w.objects

/-- The books of contexts behind these calls. -/
def KeepsContexts (calls : List ServerCall) (w : Servers) : Prop :=
  ∃ lost : List Nat, lost.length = calls.countP leaks ∧
    Reconciled (List.range w.contexts.created) w.contexts.freed
      (lost ++ w.contextsHeld)

theorem KeepsContexts.congr {calls : List ServerCall} {w w' : Servers}
    (h : KeepsContexts calls w) {call : ServerCall} (hcall : leaks call = false)
    (hctxs : w'.contexts = w.contexts)
    (hheld : w'.contextsHeld.Perm w.contextsHeld) :
    KeepsContexts (calls ++ [call]) w' := by
  obtain ⟨lost, hlost, hbalanced⟩ := h
  refine ⟨lost, ?_, ?_⟩
  · rw [List.countP_append, hlost, List.countP_singleton, hcall]
    rfl
  · rw [hctxs]
    exact hbalanced.congr (hheld.append_left _)

/-- What the constructor of `HttpsServer` does to the books. -/
theorem KeepsContexts.constructTls {calls : List ServerCall} {w : Servers}
    (h : KeepsContexts calls w) (setup : TlsSetup) :
    KeepsContexts (calls ++ [.constructTls setup]) (w.constructTls setup) := by
  obtain ⟨lost, hlost, hbalanced⟩ := h
  have hcount : (calls ++ [ServerCall.constructTls setup]).countP leaks =
      lost.length + if leaks (.constructTls setup) then 1 else 0 := by
    rw [List.countP_append, hlost, List.countP_singleton]
  obtain ⟨slot, created, heq, hslot⟩ := constructTls_cases w setup
  have hheld : contextsHeld { w with
      objects := w.objects ++ [slot],
      contexts := { w.contexts with created := created } } =
      w.contextsHeld ++ contextOf slot := holdings_snoc slot
  unfold KeepsContexts
  rw [hcount, heq, hheld]
  rcases hslot with ⟨rfl, rfl, hleaks⟩ | ⟨rfl, rfl, hleaks⟩ | ⟨rfl, rfl, hleaks⟩
  · refine ⟨lost, by rw [hleaks]; rfl, ?_⟩
    rw [contextOf, List.append_nil]
    exact hbalanced
  · refine ⟨w.contexts.created :: lost, by rw [hleaks]; rfl, ?_⟩
    rw [List.range_succ, contextOf, List.append_nil]
    exact hbalanced.acquire _
  · refine ⟨lost, by rw [hleaks]; rfl, ?_⟩
    rw [List.range_succ]
    refine (hbalanced.acquire _).congr ?_
    rw [← List.append_assoc]
    exact List.perm_append_singleton _ _

theorem KeepsContexts.step {calls : List ServerCall} {w : Servers}
    (h : KeepsContexts calls w) {call : ServerCall} {w' : Servers}
    (hstep : Servers.step w call = .ok w') :
    KeepsContexts (calls ++ [call]) w' := by
  obtain ⟨_, hstep⟩ := step_cases hstep
  cases hstep with
  | construct =>
    refine h.congr rfl rfl ?_
    rw [contextsHeld, holdings_snoc]
    exact List.Perm.of_eq (List.append_nil _)
  | constructTls setup => exact h.constructTls setup
  | @listen i server call hobject =>
    exact h.congr rfl rfl (holdings_set_same hobject rfl)
  | @stopListen i server hobject =>
    exact h.congr rfl rfl (holdings_set_same hobject rfl)
  | @swap i j server other hobject hother =>
    unfold swap
    split
    · exact h.congr rfl rfl (.refl _)
    · rename_i hij
      refine h.congr rfl rfl ?_
      have hj : (w.objects.set i (some { server with http := other.http }))[j]? =
          some (some other) := by
        rw [List.getElem?_set_ne hij]
        exact hother
      have hsecond : (holdings contextOf ((w.objects.set i
          (some { server with http := other.http })).set j
          (some { other with http := server.http }))).Perm
          (holdings contextOf (w.objects.set i
            (some { server with http := other.http }))) :=
        holdings_set_same hj rfl
      exact hsecond.trans (holdings_set_same hobject rfl)
  | @destroy i server hobject =>
    obtain ⟨lost, hlost, hbalanced⟩ := h
    refine ⟨lost, ?_, ?_⟩
    · rw [List.countP_append, hlost]
      rfl
    · have hi : i < w.objects.length := (List.getElem?_eq_some_iff.mp hobject).1
      have hbefore : (lost ++ w.contextsHeld).Perm (contextOf (some server) ++
          (lost ++ holdings contextOf (w.objects.eraseIdx i))) := by
        refine ((holdings_getElem? hobject).append_left _).trans ?_
        rw [← List.append_assoc, ← List.append_assoc]
        exact List.perm_append_comm.append_right _
      have hafter :
          (lost ++ contextsHeld (w.destroy i server)).Perm (contextOf none ++
          (lost ++ holdings contextOf (w.objects.eraseIdx i))) :=
        (holdings_set hi none).append_left _
      have hown : (contextOf (some server) ++ []).Perm
          (server.ctx.toList ++ contextOf none) := .refl _
      have hnew := hbalanced.update hbefore hown hafter
      rw [List.append_nil] at hnew
      exact hnew

theorem keepsContexts_of_run {ds₀ : Descriptors} {ns : Nodes}
    {calls : List ServerCall} {w : Servers}
    (hrun : run (start ds₀ ns) calls = .ok w) :
    KeepsContexts calls w := by
  have hstart : KeepsContexts [] (start ds₀ ns) := ⟨[], rfl, .refl _⟩
  have heach : Machine.Each step (fun _ _ => True) (start ds₀ ns) calls :=
    fun _ _ _ _ _ _ => trivial
  exact Machine.history_invariant KeepsContexts hstart
    (fun _ _ _ _ h _ hstep => h.step hstep) heach hrun

/-- In every run each context was freed once, or is that of one object, or was lost
in a constructor that threw; and one is lost for each constructor that throws behind
`SSL_CTX_new`, not for any other reason. -/
theorem run_contexts {ds₀ : Descriptors} {ns : Nodes} {calls : List ServerCall}
    {w : Servers} (hrun : run (start ds₀ ns) calls = .ok w) :
    ∃ lost : List Nat, lost.length = calls.countP leaks ∧
      (List.range w.contexts.created).Perm
        (w.contexts.freed ++ (lost ++ w.contextsHeld)) ∧
      (w.contexts.freed ++ (lost ++ w.contextsHeld)).Nodup := by
  obtain ⟨lost, hlost, hbalanced⟩ := keepsContexts_of_run hrun
  exact ⟨lost, hlost, hbalanced, hbalanced.nodup List.nodup_range⟩

/-! ## Runs and listening -/

/-- The object whose `listen` does not return has called `::listen` on its own open
socket, which is bound to an address of the list. -/
structure Listens (w : Servers) (i : Nat) (call : Listen) : Prop where
  connections : 0 < call.max_connections
  buffer : 0 < call.bufsize
  listens : call.listens = true
  socket : ∃ server s servinfo p attempt, w.objects[i]? = some (some server) ∧
    s ∈ w.descriptors.sockets ∧ s.fd = server.http.sockfd ∧ 0 < s.fd ∧
    call.resolved = some servinfo ∧ (p, attempt) ∈ servinfo ∧
    s.bound = some p.addr ∧ .reusePort ∈ s.options

theorem listenInternal_eq_true {max_connections bufsize : Int} {listens : Bool} :
    HttpServer.listenInternal max_connections bufsize listens = true ↔
      0 < max_connections ∧ 0 < bufsize ∧ listens = true := by
  unfold HttpServer.listenInternal
  split
  · exact ⟨fun h => (by cases h), fun h => absurd h.1 (by omega)⟩
  · split
    · exact ⟨fun h => (by cases h), fun h => absurd h.2.1 (by omega)⟩
    · exact ⟨fun h => ⟨by omega, by omega, h⟩, fun h => h.2.2⟩

theorem listens_of_serving {ds₀ : Descriptors} {w : Servers} (h : Holds ds₀ w)
    {i : Nat} {server : Server} (hobject : w.objects[i]? = some (some server))
    (call : Listen) {j : Nat} {bufsize : Int}
    (hserving : (w.listen i server call).serving = some (j, bufsize)) :
    j = i ∧ bufsize = call.bufsize ∧ Listens (w.listen i server call) i call := by
  have hi : i < w.objects.length := (List.getElem?_eq_some_iff.mp hobject).1
  change (if _ && _ then some (i, call.bufsize) else none) = _ at hserving
  split at hserving
  · rename_i hserves
    cases hserving
    obtain ⟨hret, hinternal⟩ := Bool.and_eq_true_iff.mp hserves
    obtain ⟨hconnections, hbuffer, hlistens⟩ := listenInternal_eq_true.mp hinternal
    refine ⟨rfl, rfl, hconnections, hbuffer, hlistens, ?_⟩
    obtain ⟨fds, _, ⟨hfalse, _, _⟩ |
      ⟨servinfo, before, p, attempt, after, fd, hresolved, hbound, _, hserver,
        hds⟩⟩ :=
      HttpServer.buildSocket_cases call.resolved w.nodes (h.owns hobject)
    · rw [hfalse] at hret
      cases hret
    · refine ⟨{ server with http := _ }, HttpServer.listener p attempt fd,
        servinfo, p,
        attempt, List.getElem?_set_self hi, ?_, ?_, hbound.pos, hresolved, ?_,
          rfl, ?_⟩
      · show _ ∈ (HttpServer.buildSocket _ _ _ _).descriptors.sockets
        rw [hds]
        exact List.mem_cons_self
      · show fd = (HttpServer.buildSocket _ _ _ _).server.sockfd
        rw [hserver]
      · rw [hbound.split]
        simp
      · show _ ∈ HttpServer.succeeded (HttpServer.requested attempt)
        rw [HttpServer.mem_requested]
        exact Or.inr ⟨rfl, hbound.port⟩
  · cases hserving

/-- A server is in its `clientIntakeCycle` only behind its own call of `listen`, the
last one of the run, with a positive buffer; and then its own socket is open and
bound to one of the addresses that were resolved. -/
theorem run_serving {ds₀ : Descriptors} (hnodup : ds₀.fds.Nodup) {ns : Nodes}
    {calls : List ServerCall} {w : Servers}
    (hrun : run (start ds₀ ns) calls = .ok w) {i : Nat} {bufsize : Int}
    (hserving : w.serving = some (i, bufsize)) :
    ∃ before call, calls = before ++ [.listen i call] ∧ bufsize = call.bufsize ∧
      Listens w i call := by
  induction calls using List.reverseRecOn with
  | nil =>
    cases hrun
    cases hserving
  | append_singleton before call _ =>
    obtain ⟨u, hu, hstep⟩ := (Machine.run_snoc_eq_ok step).mp hrun
    have h := holds_of_run hnodup hu
    obtain ⟨hnone, hstep⟩ := step_cases hstep
    have hidle : w.serving ≠ u.serving := by
      rw [hserving, hnone]
      exact Option.some_ne_none _
    cases hstep with
    | construct => exact absurd rfl hidle
    | constructTls setup =>
      obtain ⟨_, _, heq, _⟩ := constructTls_cases u setup
      rw [heq] at hidle
      exact absurd rfl hidle
    | listen call hobject =>
      obtain ⟨rfl, rfl, hlistens⟩ := listens_of_serving h hobject call hserving
      exact ⟨before, call, rfl, rfl, hlistens⟩
    | stopListen => exact absurd rfl hidle
    | swap =>
      unfold swap at hidle
      split at hidle
      · exact absurd rfl hidle
      · exact absurd rfl hidle
    | destroy => exact absurd rfl hidle

/-! ### A program -/

/-- What the library returns when everything succeeds. -/
def loaded : TlsSetup where
  created := true
  certificate := 1
  key := 1
  agrees := 1
  error := []

/-- A server of each kind, and one whose key does not fit; the plain one is stopped
and destroyed, and the other one listens. -/
def program : List ServerCall :=
  [.construct, .constructTls { loaded with agrees := 0 }, .constructTls loaded,
    .listen 0
      { resolved := some [(HttpServer.node 1, HttpServer.bindFails),
          (HttpServer.node 2, HttpServer.allSucceed)],
        listens := false },
    .swap 0 2, .stopListen 2, .destroy 0,
    .listen 2
      { resolved := some [(HttpServer.node 3, HttpServer.allSucceed)],
        listens := true }]

/-- Where the program is when it serves. -/
def served : Servers :=
  match run (start HttpServer.oneSocket HttpServer.untouched) program with
  | .ok w => w
  | .error _ => start HttpServer.oneSocket HttpServer.untouched

theorem run_program :
    run (start HttpServer.oneSocket HttpServer.untouched) program = .ok served :=
      rfl

theorem oneSocket_once : HttpServer.oneSocket.fds.Nodup := List.nodup_singleton 3

theorem run_holds_program : served.descriptors.fds.Perm [3, 4] :=
  (run_holds oneSocket_once run_program).1.sockets

theorem run_contexts_program :
    ∃ lost : List Nat, lost.length = 1 ∧
      (List.range 2).Perm (served.contexts.freed ++ (lost ++ [1])) := by
  obtain ⟨lost, hlost, hperm, _⟩ := run_contexts run_program
  exact ⟨lost, hlost, hperm⟩

theorem run_serving_program :
    ∃ call : Listen, Listens served 2 call ∧ call.bufsize = 1024 := by
  obtain ⟨_, call, _, hbufsize, hlistens⟩ :=
    run_serving oneSocket_once run_program rfl
  exact ⟨call, hlistens, hbufsize.symm⟩

end Servers

end UniServer.Http
