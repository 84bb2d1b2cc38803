/-
  Http/ListenerSockets.lean --- the descriptors and options of a socket that
  `buildSocket` makes.

  Every socket that is opened on the way is closed again before the next one is
  opened, so that at the end the new one is open or nothing has changed.  The one
  that stays is that of the first address at which `socket` and `bind` succeed.

  Of the options only the last one decides whether the walk goes on: the value of
  the fold is that of its last operand.
-/
import UniServer.Http.Listener

set_option autoImplicit false

namespace UniServer.Http

open UniServer.Foundation

/-- `socket` and `bind` succeed. -/
def Attempt.Binds (attempt : Attempt) : Prop :=
  attempt.socket.isSome = true ∧ attempt.bind = true

/-- The walk goes on behind this address. -/
def Attempt.Skipped (attempt : Attempt) : Prop :=
  attempt.socket = none ∨ attempt.reusePort = true ∧ attempt.bind = false

theorem Attempt.Skipped.not_binds {attempt : Attempt} (h : attempt.Skipped) :
    ¬ attempt.Binds := by
  intro hbinds
  obtain ⟨hsocket, hbind⟩ := hbinds
  rcases h with hnone | ⟨_, hfails⟩
  · rw [hnone] at hsocket
    cases hsocket
  · rw [hfails] at hbind
    cases hbind

namespace HttpServer

/-- The walk ends at this address, with a socket that is bound to it. -/
structure BoundAt (servinfo : List (AddrInfo × Attempt)) (sockets : List Socket)
    (before : List (AddrInfo × Attempt)) (p : AddrInfo) (attempt : Attempt)
    (after : List (AddrInfo × Attempt)) (fd : Int) : Prop where
  split : servinfo = before ++ (p, attempt) :: after
  skipped : ∀ earlier ∈ before, earlier.2.Skipped
  binds : attempt.Binds
  port : attempt.reusePort = true
  pos : 0 < fd
  fresh : ∀ s ∈ sockets, s.fd ≠ fd

theorem BoundAt.cons {servinfo before after : List (AddrInfo × Attempt)}
    {sockets : List Socket} {p : AddrInfo} {attempt : Attempt} {fd : Int}
    (h : BoundAt servinfo sockets before p attempt after fd)
    {entry : AddrInfo × Attempt} (hentry : entry.2.Skipped) :
    BoundAt (entry :: servinfo) sockets (entry :: before) p attempt after fd where
  split := by rw [h.split, List.cons_append]
  skipped := by
    intro earlier hearlier
    rcases List.mem_cons.mp hearlier with rfl | hearlier
    · exact hentry
    · exact h.skipped earlier hearlier
  binds := h.binds
  port := h.port
  pos := h.pos
  fresh := h.fresh

/-- What the walk does to the descriptors. -/
theorem buildLoop_descriptors (servinfo : List (AddrInfo × Attempt))
    (ds : Descriptors) (ns : Nodes) :
    ∃ fds : List Int, (∀ fd ∈ fds, 0 < fd ∧ ∀ s ∈ ds.sockets, s.fd ≠ fd) ∧
      (((buildLoop servinfo ds ns).1 = .exhausted ∨
          (buildLoop servinfo ds ns).1 = .refused) ∧
          (buildLoop servinfo ds ns).2.1 = tried fds ds ∨
        ∃ before p attempt after fd,
          BoundAt servinfo ds.sockets before p attempt after fd ∧
          (buildLoop servinfo ds ns).1 = .bound (p :: after.map Prod.fst) fd ∧
          (buildLoop servinfo ds ns).2.1 =
            holding (listener p attempt fd) (tried fds ds)) := by
  induction servinfo generalizing ds ns with
  | nil => exact ⟨[], by simp, Or.inl ⟨Or.inl rfl, (tried_nil ds).symm⟩⟩
  | cons entry next ih =>
    obtain ⟨p, attempt⟩ := entry
    cases hsocket : attempt.socket with
    | none =>
      obtain ⟨fds, hfds, hends⟩ :=
        ih ds ((ns.inspect p).freeaddrinfo (p :: next.map Prod.fst))
      rw [buildLoop_noSocket hsocket]
      refine ⟨fds, hfds, hends.imp_right ?_⟩
      intro hends
      obtain ⟨before, q, a, after, fd, hbound, hend⟩ := hends
      exact ⟨(p, attempt) :: before, q, a, after, fd,
        hbound.cons (Or.inl hsocket), hend⟩
    | some fresh =>
      have hpos := fresh.pos ds.sockets
      have hfresh := fresh.fresh ds.sockets
      rw [buildLoop_socket hsocket]
      cases hport : attempt.reusePort with
      | false =>
        refine ⟨[fresh.pick ds.sockets], ?_, Or.inl ⟨Or.inr rfl, rfl⟩⟩
        intro fd hfd
        rw [List.mem_singleton.mp hfd]
        exact ⟨hpos, hfresh⟩
      | true =>
        cases hbind : attempt.bind with
        | true =>
          refine ⟨[], by simp, Or.inr ⟨[], p, attempt, next, _, ?_, rfl, ?_⟩⟩
          · exact
              { split := rfl,
                skipped := by simp,
                binds := ⟨by rw [hsocket]; rfl, hbind⟩,
                port := hport,
                pos := hpos,
                fresh := hfresh }
          · rw [tried_nil]
            rfl
        | false =>
          obtain ⟨fds, hfds, hends⟩ :=
            ih (tried [fresh.pick ds.sockets] ds) ((ns.inspect p).inspect p)
          rw [tried_tried] at hends
          refine ⟨fresh.pick ds.sockets :: fds, ?_, hends.imp_right ?_⟩
          · intro fd hfd
            rcases List.mem_cons.mp hfd with rfl | hfd
            · exact ⟨hpos, hfresh⟩
            · exact hfds fd hfd
          · intro hends
            obtain ⟨before, q, a, after, fd, hbound, hend⟩ := hends
            exact ⟨(p, attempt) :: before, q, a, after, fd,
              hbound.cons (Or.inr ⟨hport, hbind⟩), hend⟩

/-! ## Descriptors -/

/-- A positive descriptor of the object is open. -/
def Owns (server : HttpServer) (ds : Descriptors) : Prop :=
  0 < server.sockfd → ∃ s ∈ ds.sockets, s.fd = server.sockfd

/-- The descriptor of the object, if it has one. -/
def held (server : HttpServer) : List Int :=
  if 0 < server.sockfd then [server.sockfd] else []

/-- The open sockets that are not the object's. -/
def others (server : HttpServer) (ds : Descriptors) : List Socket :=
  if 0 < server.sockfd then ds.sockets.filter fun s => s.fd ≠ server.sockfd
  else ds.sockets

theorem owns_new (ds : Descriptors) : Owns {} ds :=
  fun hpos => absurd hpos (by decide)

/-- A fresh descriptor is not the object's. -/
theorem Owns.ne {server : HttpServer} {ds : Descriptors} (howns : server.Owns ds)
    {fd : Int} (hpos : 0 < fd) (hfresh : ∀ s ∈ ds.sockets, s.fd ≠ fd) :
    fd ≠ server.sockfd := by
  intro hsame
  obtain ⟨s, hs, hfd⟩ := howns (hsame ▸ hpos)
  exact hfresh s hs (hfd.trans hsame.symm)

/-- Closing the descriptor of the object leaves a new socket open. -/
theorem closeConnection_held {server : HttpServer} {ds : Descriptors}
    {s : Socket} (hne : s.fd ≠ server.sockfd) (fds : List Int) :
    (closeConnection server.sockfd (holding s (tried fds ds))).2 =
      { sockets := s :: server.others ds,
        opened := ds.opened ++ fds ++ [s.fd],
        closed := ds.closed ++ fds ++ server.held } := by
  rw [closeConnection, others, held]
  by_cases hpos : server.sockfd > 0
  · rw [if_pos hpos, if_pos hpos, if_pos hpos]
    simp [Descriptors.close, holding, tried, hne]
  · rw [if_neg hpos, if_neg hpos, if_neg hpos]
    simp [holding, tried]

/-- What a call of `buildSocket` does to the object and the descriptors. -/
theorem buildSocket_cases (resolved : Option (List (AddrInfo × Attempt)))
    {server : HttpServer} {ds : Descriptors} (ns : Nodes)
    (howns : server.Owns ds) :
    ∃ fds : List Int, server.sockfd ∉ fds ∧
      ((buildSocket resolved server ds ns).ret = false ∧
          (buildSocket resolved server ds ns).server = server ∧
          (buildSocket resolved server ds ns).descriptors = tried fds ds ∨
        ∃ servinfo before p attempt after fd, resolved = some servinfo ∧
          BoundAt servinfo ds.sockets before p attempt after fd ∧
          (buildSocket resolved server ds ns).ret = true ∧
          (buildSocket resolved server ds ns).server =
            { sockfd := fd, servinfo := p :: after.map Prod.fst } ∧
          (buildSocket resolved server ds ns).descriptors =
            { sockets := listener p attempt fd :: server.others ds,
              opened := ds.opened ++ fds ++ [fd],
              closed := ds.closed ++ fds ++ server.held }) := by
  cases resolved with
  | none => exact ⟨[], by simp, Or.inl ⟨rfl, rfl, (tried_nil ds).symm⟩⟩
  | some servinfo =>
    obtain ⟨fds, hfds, hends⟩ := buildLoop_descriptors servinfo ds ns
    have hnot : server.sockfd ∉ fds := by
      intro hmem
      obtain ⟨hpos, hfresh⟩ := hfds _ hmem
      exact howns.ne hpos hfresh rfl
    rw [buildSocket]
    cases hloop : buildLoop servinfo ds ns with
    | mk how left =>
      obtain ⟨ds', ns'⟩ := left
      rw [hloop] at hends
      rcases hends with ⟨rfl | rfl, rfl⟩ |
        ⟨before, p, attempt, after, fd, hbound, rfl, rfl⟩
      · exact ⟨fds, hnot, Or.inl ⟨rfl, rfl, rfl⟩⟩
      · exact ⟨fds, hnot, Or.inl ⟨rfl, rfl, rfl⟩⟩
      · refine ⟨fds, hnot, Or.inr ⟨servinfo, before, p, attempt, after, fd, rfl,
          hbound, rfl, rfl, ?_⟩⟩
        exact closeConnection_held (s := listener p attempt fd)
          (howns.ne hbound.pos hbound.fresh) fds

/-- When `buildSocket` returns false it has closed every descriptor that it has
opened, and the object is unchanged.  When it returns true one more is open, that
of the object, bound to the first address at which `socket` and `bind` succeed, and
the object's previous descriptor was closed once. -/
theorem buildSocket_descriptors (resolved : Option (List (AddrInfo × Attempt)))
    (server : HttpServer) (ds : Descriptors) (ns : Nodes)
    (howns : server.Owns ds) :
    let built := buildSocket resolved server ds ns
    ∃ fds : List Int, server.sockfd ∉ fds ∧
      (built.ret = false →
        built.server = server ∧
        built.descriptors.sockets = ds.sockets ∧
        built.descriptors.opened = ds.opened ++ fds ∧
        built.descriptors.closed = ds.closed ++ fds) ∧
      (built.ret = true →
        ∃ before p attempt after s,
          resolved = some (before ++ (p, attempt) :: after) ∧
          (∀ earlier ∈ before, ¬ earlier.2.Binds) ∧ attempt.Binds ∧
          s.bound = some p.addr ∧
          built.server = { sockfd := s.fd, servinfo := p :: after.map Prod.fst } ∧
          built.descriptors.sockets = s :: server.others ds ∧
          built.descriptors.opened = ds.opened ++ fds ++ [s.fd] ∧
          built.descriptors.closed = ds.closed ++ fds ++ server.held) := by
  intro built
  obtain ⟨fds, hnot, ⟨hret, hserver, hds⟩ |
    ⟨servinfo, before, p, attempt, after, fd, hresolved, hbound, hret, hserver,
      hds⟩⟩ := buildSocket_cases resolved ns howns
  · refine ⟨fds, hnot, fun _ => ⟨hserver, ?_, ?_, ?_⟩, fun htrue => ?_⟩
    · exact (congrArg Descriptors.sockets hds).trans rfl
    · exact (congrArg Descriptors.opened hds).trans rfl
    · exact (congrArg Descriptors.closed hds).trans rfl
    · rw [show built.ret = false from hret] at htrue
      cases htrue
  · refine ⟨fds, hnot, fun hfalse => ?_, fun _ => ?_⟩
    · rw [show built.ret = true from hret] at hfalse
      cases hfalse
    · refine ⟨before, p, attempt, after, listener p attempt fd, ?_, ?_,
        hbound.binds, rfl, hserver, ?_, ?_, ?_⟩
      · rw [hresolved, hbound.split]
      · intro earlier hearlier
        exact (hbound.skipped earlier hearlier).not_binds
      · exact congrArg Descriptors.sockets hds
      · exact congrArg Descriptors.opened hds
      · exact congrArg Descriptors.closed hds

/-! ### An object that listens already -/

/-- A positive number above all open descriptors. -/
def above : List Socket → Int
  | [] => 1
  | s :: sockets => max (s.fd + 1) (above sockets)

theorem above_pos (sockets : List Socket) : 0 < above sockets := by
  induction sockets with
  | nil => exact Int.one_pos
  | cons s sockets ih =>
    rw [above]
    omega

theorem lt_above {sockets : List Socket} : ∀ s ∈ sockets, s.fd < above sockets := by
  induction sockets with
  | nil => simp
  | cons s sockets ih =>
    intro s' hs'
    rw [above]
    rcases List.mem_cons.mp hs' with rfl | hs'
    · omega
    · have hlt := ih s' hs'
      omega

/-- `socket` returns that number. -/
def nextDescriptor : FreshDescriptor where
  pick := above
  pos := above_pos
  fresh _ s hs := Int.ne_of_lt (lt_above s hs)

/-- A node of a list. -/
def node (handle : Nat) : AddrInfo where
  handle := handle
  family := 2
  socktype := 1
  protocol := 6
  addr := []

/-- Calls that succeed, but for `bind`. -/
def bindFails : Attempt where
  socket := some nextDescriptor
  reuseAddr := true
  reusePort := true
  bind := false

/-- Calls that succeed. -/
def allSucceed : Attempt := { bindFails with bind := true }

/-- One open socket. -/
def oneSocket : Descriptors where
  sockets := [{ prepared (node 0) allSucceed 3 with bound := some [] }]
  opened := [3]
  closed := []

/-- Nothing was freed yet. -/
def untouched : Nodes where
  freed := []
  stale := []

/-- A call of an object that has this socket; the first of two addresses cannot be
bound. -/
def rebuilt : Built :=
  buildSocket (some [(node 1, bindFails), (node 2, allSucceed)]) { sockfd := 3 }
    oneSocket untouched

theorem buildSocket_descriptors_rebuilt :
    rebuilt.ret = true ∧
      ∃ fds : List Int, 3 ∉ fds ∧ rebuilt.descriptors.closed = fds ++ [3] := by
  have hret : rebuilt.ret = true := rfl
  obtain ⟨fds, hnot, _, htrue⟩ := buildSocket_descriptors
    (some [(node 1, bindFails), (node 2, allSucceed)]) { sockfd := 3 } oneSocket
    untouched (fun _ => ⟨_, List.mem_cons_self, rfl⟩)
  obtain ⟨_, _, _, _, _, _, _, _, _, _, _, _, hclosed⟩ := htrue hret
  exact ⟨hret, fds, hnot, hclosed⟩

/-! ## Options -/

/-- The option is set on the socket with this descriptor. -/
def IsSet (ds : Descriptors) (fd : Int) (optname : SockOption) : Prop :=
  ∃ s ∈ ds.sockets, s.fd = fd ∧ optname ∈ s.options

/-- The option is set on the socket that was bound exactly when its own call
succeeded. -/
theorem isSet_bound {server : HttpServer} {ds : Descriptors} {p : AddrInfo}
    {attempt : Attempt} {fd : Int} (hfresh : ∀ s ∈ ds.sockets, s.fd ≠ fd)
    {opened closed : List Int} {optname : SockOption} :
    IsSet
        { sockets := listener p attempt fd :: server.others ds,
          opened := opened,
          closed := closed } fd optname ↔
      optname ∈ succeeded (requested attempt) := by
  have hothers : ∀ s ∈ server.others ds, s.fd ≠ fd := by
    intro s hs
    apply hfresh
    unfold others at hs
    split at hs
    · exact List.mem_of_mem_filter hs
    · exact hs
  constructor
  · intro hisSet
    obtain ⟨s, hs, hfd, hset⟩ := hisSet
    rcases List.mem_cons.mp hs with rfl | hs
    · exact hset
    · exact absurd hfd (hothers s hs)
  · intro hset
    exact ⟨listener p attempt fd, List.mem_cons_self, rfl, hset⟩

theorem mem_requested {attempt : Attempt} {optname : SockOption} :
    optname ∈ succeeded (requested attempt) ↔
      optname = .reuseAddr ∧ attempt.reuseAddr = true ∨
        optname = .reusePort ∧ attempt.reusePort = true := by
  unfold succeeded requested
  cases attempt.reuseAddr <;> cases attempt.reusePort <;> simp

/-- The walk over addresses that it goes on behind. -/
theorem buildLoop_skipped {before : List (AddrInfo × Attempt)}
    (hskipped : ∀ earlier ∈ before, earlier.2.Skipped)
    (rest : List (AddrInfo × Attempt)) (ds : Descriptors) (ns : Nodes) :
    ∃ fds ns', buildLoop (before ++ rest) ds ns =
      buildLoop rest (tried fds ds) ns' := by
  induction before generalizing ds ns with
  | nil => exact ⟨[], ns, by rw [tried_nil, List.nil_append]⟩
  | cons entry before ih =>
    obtain ⟨p, attempt⟩ := entry
    have hrest : ∀ earlier ∈ before, earlier.2.Skipped :=
      fun earlier hearlier => hskipped earlier (List.mem_cons_of_mem _ hearlier)
    have hgoes : ∃ fds ns', buildLoop ((p, attempt) :: (before ++ rest)) ds ns =
        buildLoop (before ++ rest) (tried fds ds) ns' := by
      cases hsocket : attempt.socket with
      | none =>
        exact ⟨[], _, by rw [buildLoop_noSocket hsocket, tried_nil]⟩
      | some fresh =>
        rcases hskipped (p, attempt) List.mem_cons_self with
          hnone | ⟨hport, hbind⟩
        · rw [hsocket] at hnone
          cases hnone
        · refine ⟨[fresh.pick ds.sockets], (ns.inspect p).inspect p, ?_⟩
          change attempt.bind = false at hbind
          rw [buildLoop_socket hsocket, if_pos hport, if_neg (by simp [hbind])]
    obtain ⟨fds, ns', hstep⟩ := hgoes
    obtain ⟨fds', ns'', hrec⟩ := ih hrest (tried fds ds) ns'
    refine ⟨fds ++ fds', ns'', ?_⟩
    rw [List.cons_append, hstep, hrec, tried_tried]

/-- Where the walk ends with a socket, that is the one of the object. -/
theorem buildSocket_of_skipped {before : List (AddrInfo × Attempt)}
    (hskipped : ∀ earlier ∈ before, earlier.2.Skipped) {p : AddrInfo}
    {attempt : Attempt} (hbinds : attempt.Binds) (hport : attempt.reusePort = true)
    (after : List (AddrInfo × Attempt)) {server : HttpServer} {ds : Descriptors}
    (ns : Nodes) (howns : server.Owns ds) :
    ∃ fd opened closed, (∀ s ∈ ds.sockets, s.fd ≠ fd) ∧
      (buildSocket (some (before ++ (p, attempt) :: after)) server ds ns).ret =
        true ∧
      (buildSocket (some (before ++ (p, attempt) :: after)) server ds
        ns).server.sockfd = fd ∧
      (buildSocket (some (before ++ (p, attempt) :: after)) server ds
        ns).descriptors =
        { sockets := listener p attempt fd :: server.others ds,
          opened := opened,
          closed := closed } := by
  obtain ⟨hsome, hbind⟩ := hbinds
  obtain ⟨fresh, hsocket⟩ := Option.isSome_iff_exists.mp hsome
  obtain ⟨fds, ns', hloop⟩ :=
    buildLoop_skipped hskipped ((p, attempt) :: after) ds ns
  rw [buildLoop_socket hsocket, if_pos hport, if_pos hbind] at hloop
  have hfresh := fresh.fresh ds.sockets
  have hheld := @closeConnection_held server ds
    (listener p attempt (fresh.pick ds.sockets))
    (howns.ne (fresh.pos ds.sockets) hfresh) fds
  refine ⟨fresh.pick ds.sockets, ds.opened ++ fds ++ [fresh.pick ds.sockets],
    ds.closed ++ fds ++ server.held, hfresh, ?_, ?_, ?_⟩
  · rw [buildSocket, hloop]
  · rw [buildSocket, hloop]
    rfl
  · rw [buildSocket, hloop]
    exact hheld

/-- `buildSocket` returns true only with every option set on the socket that it has
bound. -/
def SetsAll (built : Built) : Prop :=
  built.ret = true → ∀ optname ∈ [SockOption.reuseAddr, .reusePort],
    IsSet built.descriptors built.server.sockfd optname

/-- At the address at which the walk ends with a socket, the first option was set
too. -/
def FirstOptionSet (resolved : Option (List (AddrInfo × Attempt))) : Prop :=
  ∀ before p attempt after, resolved = some (before ++ (p, attempt) :: after) →
    (∀ earlier ∈ before, earlier.2.Skipped) → attempt.Binds →
    attempt.reusePort = true → attempt.reuseAddr = true

theorem setsAll_iff (resolved : Option (List (AddrInfo × Attempt)))
    {server : HttpServer} {ds : Descriptors} (ns : Nodes)
    (howns : server.Owns ds) :
    SetsAll (buildSocket resolved server ds ns) ↔ FirstOptionSet resolved := by
  constructor
  · intro hsets before p attempt after hresolved hskipped hbinds hport
    subst hresolved
    obtain ⟨fd, opened, closed, hfresh, hret, hsockfd, hds⟩ :=
      buildSocket_of_skipped hskipped hbinds hport after ns howns
    have hset := hsets hret .reuseAddr List.mem_cons_self
    rw [hsockfd, hds, isSet_bound hfresh, mem_requested] at hset
    simpa using hset
  · intro hfirst hret optname hmem
    obtain ⟨fds, _, ⟨hfalse, _, _⟩ |
      ⟨servinfo, before, p, attempt, after, fd, hresolved, hbound, _, hserver,
        hds⟩⟩ := buildSocket_cases resolved ns howns
    · rw [hfalse] at hret
      cases hret
    · have haddr : attempt.reuseAddr = true :=
        hfirst before p attempt after (by rw [hresolved, hbound.split])
          hbound.skipped hbound.binds hbound.port
      rw [hserver, hds, isSet_bound hbound.fresh, mem_requested]
      simpa [haddr, hbound.port] using hmem

/-- The value of `setSockOptions` says that all options were set, exactly when the
last one failed or none did.  `buildSocket` returns true only with all options set,
exactly when the first option was set at the address at which it ends. -/
theorem options_reported_iff (sockfd : Int) (option : SockOption × Bool)
    (rest : List (SockOption × Bool))
    (resolved : Option (List (AddrInfo × Attempt))) {server : HttpServer}
    {ds : Descriptors} (ns : Nodes) (howns : server.Owns ds) :
    (((setSockOptions sockfd option rest ds).1 = true ↔
        ∀ o ∈ option :: rest, o.2 = true) ↔
      ((option :: rest).getLast (List.cons_ne_nil _ _)).2 = false ∨
        ∀ o ∈ option :: rest, o.2 = true) ∧
    (SetsAll (buildSocket resolved server ds ns) ↔ FirstOptionSet resolved) := by
  refine ⟨?_, setsAll_iff resolved ns howns⟩
  rw [setSockOptions_ret]
  have hlast : (∀ o ∈ option :: rest, o.2 = true) →
      ((option :: rest).getLast (List.cons_ne_nil _ _)).2 = true :=
    fun hall => hall _ (List.getLast_mem _)
  cases hvalue : ((option :: rest).getLast (List.cons_ne_nil _ _)).2 with
  | false =>
    refine iff_of_true ⟨fun h => (by cases h), fun hall => ?_⟩ (Or.inl rfl)
    rw [hlast hall] at hvalue
    cases hvalue
  | true => simp

/-- A new object, and one address at which everything succeeds. -/
theorem options_reported_iff_allSucceed :
    SetsAll (buildSocket (some [(node 1, allSucceed)]) {} oneSocket untouched) ↔
      FirstOptionSet (some [(node 1, allSucceed)]) :=
  (options_reported_iff 3 (.reuseAddr, true) [] (some [(node 1, allSucceed)])
    untouched (owns_new oneSocket)).2

/-- The first option cannot be set. -/
def firstOptionFails : Attempt := { allSucceed with reuseAddr := false }

/-- Both functions return true all the same. -/
theorem failed_option_unreported :
    (setSockOptions 3 (.reuseAddr, false) [(.reusePort, true)] oneSocket).1 = true ∧
      ¬ SetsAll (buildSocket (some [(node 1, firstOptionFails)]) {} oneSocket
        untouched) := by
  refine ⟨rfl, fun hsets => ?_⟩
  rw [setsAll_iff _ _ (owns_new oneSocket)] at hsets
  have hset := hsets [] (node 1) firstOptionFails [] rfl (by simp) ⟨rfl, rfl⟩ rfl
  cases hset

end HttpServer

end UniServer.Http
