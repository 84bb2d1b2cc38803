/-
  Http/Listener.lean --- `HttpServer::buildSocket` and the destructor.

  The list that `getaddrinfo` returns is walked until a socket is bound.  What the
  calls of the system come to is given with each address.  A pointer to a node is
  the list from that node on.

  The walk has effects of two kinds, on the descriptors of the process and on the
  nodes of the list; neither looks at the other.  Reading a node that was freed
  gives what the node held, and is recorded.

  Log calls are left out, and so is what only the system calls look at: the hints
  and names given to `getaddrinfo`, and the value of an option.
-/
import UniServer.Foundation.Bytes
import UniServer.Http.Intake

set_option autoImplicit false

namespace UniServer.Http

open UniServer.Foundation

/-! ## What the system holds -/

/-- `addrinfo`; `handle` tells its node from any other. -/
structure AddrInfo where
  handle : Nat
  family : Int
  socktype : Int
  protocol : Int
  addr : Bytes
  deriving DecidableEq

/-- A name of an option of `SOL_SOCKET`. -/
inductive SockOption where
  /-- `SO_REUSEADDR` -/
  | reuseAddr
  /-- `SO_REUSEPORT` -/
  | reusePort
  | other (optname : Int)
  deriving DecidableEq

/-- An open socket: its descriptor, the arguments of `socket`, the options that are
set on it, and the address it is bound to. -/
structure Socket where
  fd : Int
  family : Int
  socktype : Int
  protocol : Int
  options : List SockOption
  bound : Option Bytes
  deriving DecidableEq

/-- A descriptor that `socket` returns: a positive one that is not open. -/
structure FreshDescriptor where
  pick : List Socket → Int
  pos : ∀ sockets, 0 < pick sockets
  fresh : ∀ sockets, ∀ s ∈ sockets, s.fd ≠ pick sockets

/-- The open sockets of the process, and the descriptors that its calls of `socket`
have returned and that it has given to `close`, oldest first. -/
structure Descriptors where
  sockets : List Socket
  opened : List Int
  closed : List Int
  deriving DecidableEq

namespace Descriptors

/-- `socket`; the descriptor is returned. -/
def socket (fresh : FreshDescriptor) (p : AddrInfo) (ds : Descriptors) :
    Int × Descriptors :=
  let fd := fresh.pick ds.sockets
  let s : Socket :=
    { fd := fd, family := p.family, socktype := p.socktype,
      protocol := p.protocol, options := [], bound := none }
  (fd, { ds with sockets := s :: ds.sockets, opened := ds.opened ++ [fd] })

/-- A change to the socket with this descriptor. -/
def modify (fd : Int) (f : Socket → Socket) (ds : Descriptors) : Descriptors :=
  { ds with sockets := ds.sockets.map fun s => if s.fd = fd then f s else s }

/-- `setsockopt`, where it succeeds. -/
def setsockopt (fd : Int) (optname : SockOption) (ds : Descriptors) : Descriptors :=
  ds.modify fd fun s => { s with options := s.options ++ [optname] }

/-- `bind`, where it succeeds. -/
def bind (fd : Int) (addr : Bytes) (ds : Descriptors) : Descriptors :=
  ds.modify fd fun s => { s with bound := some addr }

/-- `close`. -/
def close (fd : Int) (ds : Descriptors) : Descriptors :=
  { ds with
    sockets := ds.sockets.filter fun s => s.fd ≠ fd,
    closed := ds.closed ++ [fd] }

end Descriptors

/-- The nodes that were freed, in order, and those that were read behind that. -/
structure Nodes where
  freed : List Nat
  stale : List Nat
  deriving DecidableEq

namespace Nodes

/-- A member of the node is read. -/
def inspect (p : AddrInfo) (ns : Nodes) : Nodes :=
  if p.handle ∈ ns.freed then { ns with stale := ns.stale ++ [p.handle] } else ns

/-- `freeaddrinfo`: the node and all its successors. -/
def freeaddrinfo (p : List AddrInfo) (ns : Nodes) : Nodes :=
  { ns with freed := ns.freed ++ p.map AddrInfo.handle }

end Nodes

/-- What the calls for one address come to. -/
structure Attempt where
  /-- `socket`; `none` is -1 -/
  socket : Option FreshDescriptor
  /-- `setsockopt` with `SO_REUSEADDR` -/
  reuseAddr : Bool
  /-- `setsockopt` with `SO_REUSEPORT` -/
  reusePort : Bool
  bind : Bool

/-- The members of `HttpServer`; what is not used here is left out. -/
structure HttpServer where
  sockfd : Int := kEmptyDescriptor
  servinfo : List AddrInfo := []

namespace HttpServer

/-! ## The source -/

/-- `closeConnection`; the descriptor it leaves in its argument is returned. -/
def closeConnection (sockfd : Int) (ds : Descriptors) : Int × Descriptors :=
  if sockfd > 0 then (kEmptyDescriptor, ds.close sockfd) else (kInvalidSocket, ds)

/-- `applyOption`, with what its call of `setsockopt` comes to. -/
def applyOption (sockfd : Int) (option : SockOption × Bool) (ds : Descriptors) :
    Bool × Descriptors :=
  if option.2 then (true, ds.setsockopt sockfd option.1) else (false, ds)

/-- `setSockOptions`: a fold over the comma operator, whose value is that of its
last operand.  The pack is not empty, or the fold has no value. -/
def setSockOptions (sockfd : Int) :
    SockOption × Bool → List (SockOption × Bool) → Descriptors → Bool × Descriptors
  | option, [], ds => applyOption sockfd option ds
  | option, next :: rest, ds =>
      setSockOptions sockfd next rest (applyOption sockfd option ds).2

/-- How the loop of `buildSocket` ends. -/
inductive LoopEnd where
  /-- `p` is null -/
  | exhausted
  /-- `return false` -/
  | refused
  /-- `break` -/
  | bound (p : List AddrInfo) (sockfd : Int)
  deriving DecidableEq

/-- The loop of `buildSocket`. -/
def buildLoop :
    List (AddrInfo × Attempt) → Descriptors → Nodes → LoopEnd × Descriptors × Nodes
  | [], ds, ns => (.exhausted, ds, ns)
  | (p, attempt) :: next, ds, ns =>
      -- `p->ai_next`, and then the arguments of `socket`
      let ns := ns.inspect p
      match attempt.socket with
      | none => buildLoop next ds (ns.freeaddrinfo (p :: next.map Prod.fst))
      | some fresh =>
        let (sockfd, ds) := ds.socket fresh p
        match setSockOptions sockfd (.reuseAddr, attempt.reuseAddr)
            [(.reusePort, attempt.reusePort)] ds with
        | (false, ds) =>
            (.refused, (closeConnection sockfd ds).2,
              ns.freeaddrinfo (p :: next.map Prod.fst))
        | (true, ds) =>
            -- `p->ai_addr`
            let ns := ns.inspect p
            if attempt.bind then
              (.bound (p :: next.map Prod.fst) sockfd, ds.bind sockfd p.addr, ns)
            else buildLoop next (closeConnection sockfd ds).2 ns

/-- What a call leaves: the value returned, the object, and what the process
holds. -/
structure Built where
  ret : Bool
  server : HttpServer
  descriptors : Descriptors
  nodes : Nodes

/-- `buildSocket`; `resolved` is the list of `getaddrinfo`, or `none` when it
fails. -/
def buildSocket (resolved : Option (List (AddrInfo × Attempt)))
    (server : HttpServer) (ds : Descriptors) (ns : Nodes) : Built :=
  match resolved with
  | none => { ret := false, server := server, descriptors := ds, nodes := ns }
  | some servinfo =>
    match buildLoop servinfo ds ns with
    | (.exhausted, ds, ns) =>
        { ret := false, server := server, descriptors := ds, nodes := ns }
    | (.refused, ds, ns) =>
        { ret := false, server := server, descriptors := ds, nodes := ns }
    | (.bound p sockfd, ds, ns) =>
        { ret := true,
          server := { sockfd := sockfd, servinfo := p },
          descriptors := (closeConnection server.sockfd ds).2,
          nodes := ns }

/-- `~HttpServer`: what the process holds behind it. -/
def destroy (server : HttpServer) (ds : Descriptors) (ns : Nodes) :
    Descriptors × Nodes :=
  ((closeConnection server.sockfd ds).2, ns.freeaddrinfo server.servinfo)

/-! ## Options -/

theorem applyOption_ret (sockfd : Int) (option : SockOption × Bool)
    (ds : Descriptors) : (applyOption sockfd option ds).1 = option.2 := by
  unfold applyOption
  cases option.2 <;> rfl

/-- The value of the fold is the outcome of the last option. -/
theorem setSockOptions_ret (sockfd : Int) (option : SockOption × Bool)
    (rest : List (SockOption × Bool)) (ds : Descriptors) :
    (setSockOptions sockfd option rest ds).1 =
      ((option :: rest).getLast (List.cons_ne_nil _ _)).2 := by
  induction rest generalizing option ds with
  | nil => exact applyOption_ret sockfd option ds
  | cons next rest ih =>
    rw [setSockOptions, ih, List.getLast_cons_cons]

/-- A change to the socket that was opened last. -/
theorem modify_head {s : Socket} {ds : Descriptors}
    (hothers : ∀ s' ∈ ds.sockets, s'.fd ≠ s.fd) (f : Socket → Socket) :
    Descriptors.modify s.fd f { ds with sockets := s :: ds.sockets } =
      { ds with sockets := f s :: ds.sockets } := by
  have hsame : ds.sockets.map (fun s' => if s'.fd = s.fd then f s' else s') =
      ds.sockets := by
    conv => rhs; rw [← List.map_id ds.sockets]
    apply List.map_congr_left
    intro s' hs'
    exact if_neg (hothers s' hs')
  rw [Descriptors.modify]
  simp only [List.map_cons, if_true, hsame]

/-- The options of a pack that are set. -/
def succeeded (pack : List (SockOption × Bool)) : List SockOption :=
  (pack.filter Prod.snd).map Prod.fst

theorem applyOption_eq (option : SockOption × Bool) {s : Socket} {ds : Descriptors}
    (hothers : ∀ s' ∈ ds.sockets, s'.fd ≠ s.fd) :
    (applyOption s.fd option { ds with sockets := s :: ds.sockets }).2 =
      { ds with
        sockets :=
          { s with options := s.options ++ succeeded [option] } ::
            ds.sockets } := by
  obtain ⟨optname, ok⟩ := option
  cases ok with
  | true => exact modify_head hothers _
  | false =>
    show { ds with sockets := s :: ds.sockets } = _
    simp [succeeded]

/-- Setting options changes nothing but the options of the socket. -/
theorem setSockOptions_eq (option : SockOption × Bool)
    (rest : List (SockOption × Bool)) {s : Socket} {ds : Descriptors}
    (hothers : ∀ s' ∈ ds.sockets, s'.fd ≠ s.fd) :
    (setSockOptions s.fd option rest { ds with sockets := s :: ds.sockets }).2 =
      { ds with
        sockets :=
          { s with options := s.options ++ succeeded (option :: rest) } ::
            ds.sockets } := by
  induction rest generalizing option s with
  | nil => exact applyOption_eq option hothers
  | cons next rest ih =>
    have hrec := @ih next { s with options := s.options ++ succeeded [option] }
      hothers
    rw [setSockOptions, applyOption_eq option hothers]
    refine hrec.trans ?_
    have hpack : succeeded [option] ++ succeeded (next :: rest) =
        succeeded (option :: next :: rest) := by
      rw [succeeded, succeeded, succeeded, ← List.map_append, ← List.filter_append]
      rfl
    rw [List.append_assoc, hpack]

/-! ## One address -/

/-- The options that `buildSocket` asks for. -/
def requested (attempt : Attempt) : List (SockOption × Bool) :=
  [(.reuseAddr, attempt.reuseAddr), (.reusePort, attempt.reusePort)]

/-- A new socket for an address, with the options that could be set. -/
def prepared (p : AddrInfo) (attempt : Attempt) (fd : Int) : Socket where
  fd := fd
  family := p.family
  socktype := p.socktype
  protocol := p.protocol
  options := succeeded (requested attempt)
  bound := none

/-- The same socket, bound to the address. -/
def listener (p : AddrInfo) (attempt : Attempt) (fd : Int) : Socket :=
  { prepared p attempt fd with bound := some p.addr }

/-- This socket was opened. -/
def holding (s : Socket) (ds : Descriptors) : Descriptors :=
  { ds with sockets := s :: ds.sockets, opened := ds.opened ++ [s.fd] }

/-- Sockets were opened and closed again. -/
def tried (fds : List Int) (ds : Descriptors) : Descriptors :=
  { ds with opened := ds.opened ++ fds, closed := ds.closed ++ fds }

@[simp] theorem tried_nil (ds : Descriptors) : tried [] ds = ds := by
  simp [tried]

theorem tried_tried (fds fds' : List Int) (ds : Descriptors) :
    tried fds' (tried fds ds) = tried (fds ++ fds') ds := by
  simp [tried]

theorem closeConnection_holding {s : Socket} {ds : Descriptors} (hpos : 0 < s.fd)
    (hothers : ∀ s' ∈ ds.sockets, s'.fd ≠ s.fd) :
    (closeConnection s.fd (holding s ds)).2 = tried [s.fd] ds := by
  have hrest : (s :: ds.sockets).filter (fun s' => s'.fd ≠ s.fd) = ds.sockets := by
    rw [List.filter_cons_of_neg (by simp)]
    apply List.filter_eq_self.mpr
    intro s' hs'
    exact decide_eq_true (hothers s' hs')
  rw [closeConnection, if_pos hpos, Descriptors.close, tried, holding]
  simp only [hrest]

theorem bind_holding {s : Socket} {ds : Descriptors}
    (hothers : ∀ s' ∈ ds.sockets, s'.fd ≠ s.fd) (addr : Bytes) :
    (holding s ds).bind s.fd addr = holding { s with bound := some addr } ds :=
  @modify_head s { ds with opened := ds.opened ++ [s.fd] } hothers _

section

variable {p : AddrInfo} {attempt : Attempt} {next : List (AddrInfo × Attempt)}
  {ds : Descriptors} {ns : Nodes} {fresh : FreshDescriptor}

/-- What `setSockOptions` comes to on a new socket. -/
theorem setSockOptions_socket :
    setSockOptions (fresh.pick ds.sockets) (.reuseAddr, attempt.reuseAddr)
        [(.reusePort, attempt.reusePort)] (ds.socket fresh p).2 =
      (attempt.reusePort,
        holding (prepared p attempt (fresh.pick ds.sockets)) ds) := by
  apply Prod.ext
  · exact setSockOptions_ret _ _ _ _
  · exact @setSockOptions_eq _ _
      { prepared p attempt (fresh.pick ds.sockets) with options := [] }
      { ds with opened := ds.opened ++ [fresh.pick ds.sockets] }
      (fresh.fresh ds.sockets)

theorem buildLoop_noSocket (hsocket : attempt.socket = none) :
    buildLoop ((p, attempt) :: next) ds ns =
      buildLoop next ds ((ns.inspect p).freeaddrinfo (p :: next.map Prod.fst)) := by
  rw [buildLoop]
  simp only [hsocket]

/-- What becomes of a new socket depends on its last option and on `bind`. -/
theorem buildLoop_socket (hsocket : attempt.socket = some fresh) :
    buildLoop ((p, attempt) :: next) ds ns =
      if attempt.reusePort then
        if attempt.bind then
          (.bound (p :: next.map Prod.fst) (fresh.pick ds.sockets),
            holding (listener p attempt (fresh.pick ds.sockets)) ds,
            (ns.inspect p).inspect p)
        else
          buildLoop next (tried [fresh.pick ds.sockets] ds)
            ((ns.inspect p).inspect p)
      else
        (.refused, tried [fresh.pick ds.sockets] ds,
          (ns.inspect p).freeaddrinfo (p :: next.map Prod.fst)) := by
  have hset := @setSockOptions_socket p attempt ds fresh
  have hclose := closeConnection_holding
    (s := prepared p attempt (fresh.pick ds.sockets)) (fresh.pos ds.sockets)
    (fresh.fresh ds.sockets)
  have hbound := bind_holding (s := prepared p attempt (fresh.pick ds.sockets))
    (fresh.fresh ds.sockets) p.addr
  rw [buildLoop, hsocket]
  dsimp only [Descriptors.socket] at hset ⊢
  rw [hset]
  cases attempt.reusePort with
  | false => exact congrArg (fun ds' => (_, ds', _)) hclose
  | true =>
    cases attempt.bind with
    | false => exact congrArg (fun ds' => buildLoop next ds' _) hclose
    | true => exact congrArg (fun ds' => (_, ds', _)) hbound

end

end HttpServer

end UniServer.Http
