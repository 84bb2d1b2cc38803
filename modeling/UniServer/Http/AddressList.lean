/-
  Http/AddressList.lean --- who frees the list of `getaddrinfo`.

  `freeaddrinfo` frees a node and everything behind it.  `buildSocket` calls it on
  the node at hand, as if that were the only one: behind an address without a socket
  it goes on to nodes that are freed, and what it leaves behind on other addresses
  is freed by nobody.  The list comes out right exactly when the walk ends at its
  first node.
-/
import UniServer.Http.ListenerSockets
import Mathlib.Data.List.Nodup

set_option autoImplicit false

namespace UniServer.Http

open UniServer.Foundation

/-- The nodes of a list. -/
def handles (servinfo : List (AddrInfo × Attempt)) : List Nat :=
  servinfo.map fun entry => entry.1.handle

theorem handles_eq (servinfo : List (AddrInfo × Attempt)) :
    (servinfo.map Prod.fst).map AddrInfo.handle = handles servinfo := by
  rw [List.map_map]
  rfl

namespace HttpServer

/-- The list was allocated by `getaddrinfo`: its nodes are different ones, and no
other list has them. -/
structure Allocated (servinfo : List (AddrInfo × Attempt)) (server : HttpServer)
    (ns : Nodes) : Prop where
  nodup : (handles servinfo).Nodup
  unfreed : ∀ h ∈ handles servinfo, h ∉ ns.freed
  unheld : ∀ h ∈ handles servinfo, h ∉ server.servinfo.map AddrInfo.handle

/-! ## What the walk frees and reads -/

theorem stale_prefix_inspect (p : AddrInfo) (ns : Nodes) :
    ns.stale <+: (ns.inspect p).stale := by
  unfold Nodes.inspect
  split
  · exact List.prefix_append _ _
  · exact List.prefix_refl _

theorem inspect_unfreed {p : AddrInfo} {ns : Nodes} (h : p.handle ∉ ns.freed) :
    ns.inspect p = ns :=
  if_neg h

@[simp] theorem freed_inspect (p : AddrInfo) (ns : Nodes) :
    (ns.inspect p).freed = ns.freed := by
  unfold Nodes.inspect
  split <;> rfl

/-- What the walk leaves of the nodes: it has freed nodes of its own list only, and
a pointer that it ends with is into that list. -/
structure Walked (servinfo : List (AddrInfo × Attempt)) (ns : Nodes)
    (result : LoopEnd × Descriptors × Nodes) : Prop where
  stale : ns.stale <+: result.2.2.stale
  freed : ∃ more, result.2.2.freed = ns.freed ++ more ∧
    ∀ h ∈ more, h ∈ handles servinfo
  bound : ∀ q sockfd, result.1 = .bound q sockfd →
    ∀ a ∈ q, a.handle ∈ handles servinfo

theorem buildLoop_walked (servinfo : List (AddrInfo × Attempt)) (ds : Descriptors)
    (ns : Nodes) : Walked servinfo ns (buildLoop servinfo ds ns) := by
  induction servinfo generalizing ds ns with
  | nil =>
    refine ⟨List.prefix_refl _, ⟨[], by simp [buildLoop], by simp⟩, ?_⟩
    intro q sockfd h
    cases h
  | cons entry next ih =>
    obtain ⟨p, attempt⟩ := entry
    have hall : ((p :: next.map Prod.fst).map AddrInfo.handle) =
        handles ((p, attempt) :: next) := by
      rw [List.map_cons, handles_eq]
      rfl
    have hbehind : ∀ h ∈ handles next, h ∈ handles ((p, attempt) :: next) :=
      fun h hh => List.mem_cons_of_mem _ hh
    cases hsocket : attempt.socket with
    | none =>
      have hrec := ih ds ((ns.inspect p).freeaddrinfo (p :: next.map Prod.fst))
      rw [buildLoop_noSocket hsocket]
      obtain ⟨more, hfreed, hmore⟩ := hrec.freed
      refine ⟨(stale_prefix_inspect p ns).trans hrec.stale,
        ⟨handles ((p, attempt) :: next) ++ more, ?_, ?_⟩, ?_⟩
      · rw [hfreed, Nodes.freeaddrinfo, hall, freed_inspect, List.append_assoc]
      · intro h hh
        rcases List.mem_append.mp hh with hh | hh
        · exact hh
        · exact hbehind h (hmore h hh)
      · intro q sockfd hq a ha
        exact hbehind _ (hrec.bound q sockfd hq a ha)
    | some fresh =>
      have hreads : ns.stale <+: ((ns.inspect p).inspect p).stale :=
        (stale_prefix_inspect p ns).trans (stale_prefix_inspect p _)
      rw [buildLoop_socket hsocket]
      cases attempt.reusePort with
      | false =>
        refine ⟨stale_prefix_inspect p ns,
          ⟨handles ((p, attempt) :: next), ?_, fun _ hh => hh⟩, ?_⟩
        · show (ns.inspect p).freed ++ _ = _
          rw [hall, freed_inspect]
        · intro q sockfd h
          cases h
      | true =>
        cases attempt.bind with
        | true =>
          refine ⟨hreads, ⟨[], ?_, by simp⟩, ?_⟩
          · show ((ns.inspect p).inspect p).freed = _
            rw [freed_inspect, freed_inspect, List.append_nil]
          · intro q sockfd h a ha
            cases h
            rw [← hall]
            exact List.mem_map_of_mem ha
        | false =>
          have hrec := ih (tried [fresh.pick ds.sockets] ds)
            ((ns.inspect p).inspect p)
          obtain ⟨more, hfreed, hmore⟩ := hrec.freed
          refine ⟨hreads.trans hrec.stale,
            ⟨more, ?_, fun h hh => hbehind h (hmore h hh)⟩, ?_⟩
          · rw [freed_inspect, freed_inspect] at hfreed
            exact hfreed
          · intro q sockfd hq a ha
            exact hbehind _ (hrec.bound q sockfd hq a ha)

/-! ## Every node once -/

/-- The nodes that are freed behind the destructor. -/
def freedAtEnd (built : Built) : List Nat :=
  (destroy built.server built.descriptors built.nodes).2.freed

/-- No node is read behind its release, and with the destructor each one of the list
is freed once. -/
def ReleasesOnce (resolved : Option (List (AddrInfo × Attempt)))
    (server : HttpServer) (ds : Descriptors) (ns : Nodes) : Prop :=
  (buildSocket resolved server ds ns).nodes.stale = ns.stale ∧
    ∀ h ∈ handles (resolved.getD []),
      (freedAtEnd (buildSocket resolved server ds ns)).count h = 1

/-- The walk ends at its first node: the socket that is made for it is bound or
refused, or there is no other node. -/
def EndsAtFirst : Option (List (AddrInfo × Attempt)) → Prop
  | none => True
  | some [] => True
  | some ((_, attempt) :: next) =>
      (attempt.socket = none → next = []) ∧
        (attempt.socket.isSome = true → attempt.reusePort = true →
          attempt.bind = true)

/-- What the object holds behind a call is from the list or what it held before. -/
theorem held_buildSocket (servinfo : List (AddrInfo × Attempt))
    (server : HttpServer) (ds : Descriptors) (ns : Nodes) :
    (buildSocket (some servinfo) server ds ns).nodes =
        (buildLoop servinfo ds ns).2.2 ∧
      ((∃ q sockfd, (buildLoop servinfo ds ns).1 = .bound q sockfd ∧
          (buildSocket (some servinfo) server ds ns).server.servinfo = q) ∨
        (buildSocket (some servinfo) server ds ns).server = server) := by
  rw [buildSocket]
  cases hloop : buildLoop servinfo ds ns with
  | mk how left =>
    cases how with
    | exhausted => exact ⟨rfl, Or.inr rfl⟩
    | refused => exact ⟨rfl, Or.inr rfl⟩
    | bound q sockfd => exact ⟨rfl, Or.inl ⟨q, sockfd, rfl, rfl⟩⟩

theorem freedAtEnd_eq (built : Built) :
    freedAtEnd built =
      built.nodes.freed ++ built.server.servinfo.map AddrInfo.handle :=
  rfl

section

variable {p : AddrInfo} {attempt : Attempt} {next : List (AddrInfo × Attempt)}
  {server : HttpServer} {ds : Descriptors} {ns : Nodes}

theorem Allocated.unfreed_head
    (halloc : Allocated ((p, attempt) :: next) server ns) : p.handle ∉ ns.freed :=
  halloc.unfreed p.handle List.mem_cons_self

/-- Once what was freed of the list is the list itself, each node was freed once. -/
theorem Allocated.count_eq_one {servinfo : List (AddrInfo × Attempt)}
    (halloc : Allocated servinfo server ns) {kept : List Nat}
    (hkept : ∀ h ∈ handles servinfo, h ∉ kept) :
    ∀ h ∈ handles servinfo,
      (ns.freed ++ handles servinfo ++ kept).count h = 1 := by
  intro h hh
  rw [List.count_append, List.count_append,
    List.count_eq_zero_of_not_mem (halloc.unfreed h hh),
    List.count_eq_one_of_mem halloc.nodup hh,
    List.count_eq_zero_of_not_mem (hkept h hh)]

/-- The first node is read. -/
theorem inspect_prefix_buildLoop :
    (ns.inspect p).stale <+:
      (buildLoop ((p, attempt) :: next) ds ns).2.2.stale := by
  cases hsocket : attempt.socket with
  | none =>
    rw [buildLoop_noSocket hsocket]
    exact (buildLoop_walked next ds
      ((ns.inspect p).freeaddrinfo (p :: next.map Prod.fst))).stale
  | some fresh =>
    have hagain := stale_prefix_inspect p (ns.inspect p)
    rw [buildLoop_socket hsocket]
    cases attempt.reusePort with
    | false => exact List.prefix_refl _
    | true =>
      cases attempt.bind with
      | true => exact hagain
      | false =>
        exact hagain.trans (buildLoop_walked next
          (tried [fresh.pick ds.sockets] ds) ((ns.inspect p).inspect p)).stale

/-- Behind an address without a socket the next node is read though it was freed. -/
theorem stale_of_noSocket (hsocket : attempt.socket = none) (hnext : next ≠ []) :
    (buildLoop ((p, attempt) :: next) ds ns).2.2.stale ≠ ns.stale := by
  obtain ⟨⟨q, attempt'⟩, rest, rfl⟩ := List.exists_cons_of_ne_nil hnext
  rw [buildLoop_noSocket hsocket]
  generalize hfrees : (ns.inspect p).freeaddrinfo
    (p :: ((q, attempt') :: rest).map Prod.fst) = ns'
  have hfreed : q.handle ∈ ns'.freed := by
    rw [← hfrees]
    simp [Nodes.freeaddrinfo]
  have hbefore : ns.stale.length ≤ ns'.stale.length := by
    rw [← hfrees]
    exact (stale_prefix_inspect p ns).length_le
  have hread := (@inspect_prefix_buildLoop q attempt' rest ds ns').length_le
  rw [Nodes.inspect, if_pos hfreed, List.length_append, List.length_singleton]
    at hread
  intro hsame
  rw [hsame] at hread
  omega

/-- An address that cannot be bound is left to nobody. -/
theorem count_of_not_bound (halloc : Allocated ((p, attempt) :: next) server ns)
    {fresh : FreshDescriptor} (hsocket : attempt.socket = some fresh)
    (hport : attempt.reusePort = true) (hbind : attempt.bind = false) :
    (freedAtEnd (buildSocket (some ((p, attempt) :: next)) server ds ns)).count
      p.handle = 0 := by
  obtain ⟨hnodes, hheld⟩ :=
    held_buildSocket ((p, attempt) :: next) server ds ns
  have hhead := (List.nodup_cons.mp halloc.nodup).1
  have hloop : buildLoop ((p, attempt) :: next) ds ns =
      buildLoop next (tried [fresh.pick ds.sockets] ds) ns := by
    rw [buildLoop_socket hsocket, if_pos hport, if_neg (by simp [hbind]),
      inspect_unfreed halloc.unfreed_head, inspect_unfreed halloc.unfreed_head]
  have hwalked := buildLoop_walked next (tried [fresh.pick ds.sockets] ds) ns
  rw [hloop] at hnodes hheld
  obtain ⟨more, hfreed, hmore⟩ := hwalked.freed
  apply List.count_eq_zero_of_not_mem
  rw [freedAtEnd_eq, hnodes, hfreed]
  intro hmem
  rcases List.mem_append.mp hmem with hmem | hmem
  · rcases List.mem_append.mp hmem with hmem | hmem
    · exact halloc.unfreed_head hmem
    · exact hhead (hmore _ hmem)
  · rcases hheld with ⟨q, sockfd, hbound, hserver⟩ | hserver
    · rw [hserver] at hmem
      obtain ⟨a, ha, hsame⟩ := List.mem_map.mp hmem
      have hin := hwalked.bound q sockfd hbound a ha
      rw [hsame] at hin
      exact hhead hin
    · rw [hserver] at hmem
      exact halloc.unheld _ List.mem_cons_self hmem

/-- Where the socket of the first address is bound, the destructor frees the
list. -/
theorem releasesOnce_of_bound (halloc : Allocated ((p, attempt) :: next) server ns)
    {fresh : FreshDescriptor} (hsocket : attempt.socket = some fresh)
    (hport : attempt.reusePort = true) (hbind : attempt.bind = true) :
    ReleasesOnce (some ((p, attempt) :: next)) server ds ns := by
  have hloop : buildLoop ((p, attempt) :: next) ds ns =
      (.bound (p :: next.map Prod.fst) (fresh.pick ds.sockets),
        holding (listener p attempt (fresh.pick ds.sockets)) ds, ns) := by
    rw [buildLoop_socket hsocket, if_pos hport, if_pos hbind,
      inspect_unfreed halloc.unfreed_head, inspect_unfreed halloc.unfreed_head]
  have hall : freedAtEnd (buildSocket (some ((p, attempt) :: next)) server ds ns) =
      ns.freed ++ handles ((p, attempt) :: next) := by
    rw [freedAtEnd_eq, buildSocket, hloop, ← handles_eq]
    rfl
  refine ⟨?_, ?_⟩
  · rw [buildSocket, hloop]
  · intro h hh
    rw [hall, ← List.append_nil (ns.freed ++ _)]
    exact halloc.count_eq_one (by simp) h hh

/-- Where the walk gives up at the first address, it has freed the list itself. -/
theorem releasesOnce_of_freed (halloc : Allocated ((p, attempt) :: next) server ns)
    {how : LoopEnd} (hhow : how = .exhausted ∨ how = .refused) {ds' : Descriptors}
    (hloop : buildLoop ((p, attempt) :: next) ds ns =
      (how, ds', (ns.inspect p).freeaddrinfo (p :: next.map Prod.fst))) :
    ReleasesOnce (some ((p, attempt) :: next)) server ds ns := by
  rw [inspect_unfreed halloc.unfreed_head] at hloop
  have hbuilt : buildSocket (some ((p, attempt) :: next)) server ds ns =
      { ret := false, server := server, descriptors := ds',
        nodes := ns.freeaddrinfo (p :: next.map Prod.fst) } := by
    rw [buildSocket, hloop]
    rcases hhow with rfl | rfl <;> rfl
  have hall : freedAtEnd (buildSocket (some ((p, attempt) :: next)) server ds ns) =
      ns.freed ++ handles ((p, attempt) :: next) ++
        server.servinfo.map AddrInfo.handle := by
    rw [freedAtEnd_eq, hbuilt, ← handles_eq]
    rfl
  refine ⟨?_, ?_⟩
  · rw [hbuilt]
    rfl
  · intro h hh
    rw [hall]
    exact halloc.count_eq_one halloc.unheld h hh

end

/-- No node is read behind its release and each one is freed exactly once, if and
only if the walk ends at its first node. -/
theorem releasesOnce_iff (resolved : Option (List (AddrInfo × Attempt)))
    (server : HttpServer) (ds : Descriptors) (ns : Nodes)
    (halloc : Allocated (resolved.getD []) server ns) :
    ReleasesOnce resolved server ds ns ↔ EndsAtFirst resolved := by
  match resolved with
  | none => exact iff_of_true ⟨rfl, by simp [handles]⟩ trivial
  | some [] => exact iff_of_true ⟨rfl, by simp [handles]⟩ trivial
  | some ((p, attempt) :: next) =>
    change Allocated ((p, attempt) :: next) server ns at halloc
    constructor
    · intro honce
      refine ⟨fun hsocket => ?_, fun hsome hport => ?_⟩
      · by_contra hnext
        apply @stale_of_noSocket p attempt next ds ns hsocket hnext
        rw [← (held_buildSocket _ server ds ns).1]
        exact honce.1
      · by_contra hbind
        obtain ⟨fresh, hsocket⟩ := Option.isSome_iff_exists.mp hsome
        have hfails : attempt.bind = false := by simpa using hbind
        have hnever := @count_of_not_bound p attempt next server ds ns halloc fresh
          hsocket hport hfails
        have hone := honce.2 p.handle List.mem_cons_self
        omega
    · intro hends
      obtain ⟨halone, hbinds⟩ := hends
      cases hsocket : attempt.socket with
      | none =>
        cases halone hsocket
        exact releasesOnce_of_freed halloc (Or.inl rfl)
          (buildLoop_noSocket hsocket)
      | some fresh =>
        cases hport : attempt.reusePort with
        | true =>
          have hbind := hbinds (by rw [hsocket]; rfl) hport
          exact releasesOnce_of_bound halloc hsocket hport hbind
        | false =>
          have hloop : buildLoop ((p, attempt) :: next) ds ns =
              (.refused, tried [fresh.pick ds.sockets] ds,
                (ns.inspect p).freeaddrinfo (p :: next.map Prod.fst)) := by
            rw [buildLoop_socket hsocket, if_neg (by simp [hport])]
          exact releasesOnce_of_freed halloc (Or.inr rfl) hloop

/-! ### Two addresses -/

/-- `socket` fails. -/
def noSocket : Attempt := { allSucceed with socket := none }

/-- A new object frees both nodes when the first address can be bound. -/
theorem releasesOnce_iff_allSucceed :
    ReleasesOnce (some [(node 1, allSucceed), (node 2, allSucceed)]) {} oneSocket
      untouched := by
  refine (releasesOnce_iff (some [(node 1, allSucceed), (node 2, allSucceed)]) {}
    oneSocket untouched ⟨?_, ?_, ?_⟩).mpr ⟨?_, fun _ _ => rfl⟩
  · simp [handles, node]
  · simp [untouched]
  · simp
  · intro hnone
    cases hnone

/-- Behind an address without a socket the second node is read though it was freed,
and freed twice; a first address that cannot be bound is never freed. -/
theorem second_address_misread :
    ¬ ReleasesOnce (some [(node 1, noSocket), (node 2, allSucceed)]) {} oneSocket
        untouched ∧
      (buildSocket (some [(node 1, noSocket), (node 2, allSucceed)]) {} oneSocket
        untouched).nodes.stale = [2, 2] ∧
      freedAtEnd (buildSocket (some [(node 1, noSocket), (node 2, allSucceed)]) {}
        oneSocket untouched) = [1, 2, 2] ∧
      freedAtEnd (buildSocket (some [(node 1, bindFails), (node 2, allSucceed)]) {}
        oneSocket untouched) = [2] := by
  refine ⟨fun honce => ?_, rfl, rfl, rfl⟩
  have hstale := honce.1
  change [2, 2] = [] at hstale
  cases hstale

end HttpServer

end UniServer.Http
