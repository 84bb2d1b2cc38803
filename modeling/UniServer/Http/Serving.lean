/-
  Http/Serving.lean --- the whole server: the parent in its `clientIntakeCycle`, and
  the children that it forks, each in the `process` of its connection.

  A child is a copy of the parent at its `fork`: of what the parent holds then, and
  of the generator of `generate_uuid_v4`, which is `thread_local` and seeded in the
  parent.  From there on parent and children go their own ways, and their events
  come in any order.

  The iterations are those of `Http/Intake` (`iteration_intakeTurn`), the loops of
  the children those of `Http/Session`.  A router is installed.  Log calls are left
  out.
-/
import UniServer.Common.Uuid
import UniServer.Foundation.Forks
import UniServer.Http.Exchange
import UniServer.Http.Intake

set_option autoImplicit false

namespace UniServer.Http

open UniServer.Foundation UniServer.Common UniServer.Routing

variable {H : Type}

/-! ## Ids -/

/-- The two numbers that each call of `generate_uuid_v4` draws, in order, from the
generator as it was seeded. -/
abbrev Generator : Type := Nat → BitVec 64 × BitVec 64

/-- What the call after `n` others returns. -/
def nthId (words : Generator) (n : Nat) : Bytes :=
  generateUuidV4 (words n).1 (words n).2

/-- The parent: what it holds, and how many ids it has drawn. -/
structure Parent where
  holds : Process
  drawn : Nat

/-- A child as it is forked: its client, the id of the client, what else its
connection is made of, what it holds, how many ids its generator has drawn, and the
time at which it answers. -/
structure Child (α : Type) where
  client : ClientConnection
  id : Bytes
  connection : α
  holds : Process
  drawn : Nat
  now : Int

/-- With a router the server itself draws one id in a child: for the request, or
for a response without one. -/
def Child.draws {α : Type} (words : Generator) (k : Child α) : Draws where
  requestId := nthId words k.drawn
  responseId := nthId words k.drawn
  now := k.now

/-- The parent as it starts to listen. -/
def listeningParent : Parent := { holds := listeningOnly, drawn := 0 }

/-! ## The plain server -/

/-- An iteration of the plain server: what `accept` and `fork` come to, and, for the
child, what its buffer holds and the time at which it answers. -/
structure PlainAdmission where
  accept : Accept
  fork : Option Nat
  buf : Bytes
  now : Int

namespace PlainAdmission

/-- The iteration as the parent goes through it. -/
def inParent (a : PlainAdmission) : PlainIntake where
  accept := a.accept
  fork :=
    match a.fork with
    | some pid => .parent pid
    | none => .failed

/-- The iteration as the child goes through it. -/
def inChild (a : PlainAdmission) : PlainIntake where
  accept := a.accept
  fork := .child

end PlainAdmission

namespace HttpServer

/-- One iteration of `clientIntakeCycle`, in the parent and up to the construction
of the connection in the child. -/
def iteration (words : Generator) (p : Parent) (a : PlainAdmission) :
    Parent × Option (Child Bytes) :=
  let (client, holds) := acceptConnection a.accept p.holds
  if client.sockfd = kInvalidSocket then
    ({ holds := client.destroy holds, drawn := p.drawn }, none)
  else
    -- `acceptConnection` has drawn an id for the client
    let after : Parent := { holds := client.destroy holds, drawn := p.drawn + 1 }
    match a.fork with
    | none => (after, none)
    | some _ =>
        (after,
          some { client := client, id := nthId words p.drawn, connection := a.buf,
                 holds := holds.closeListener, drawn := p.drawn + 1, now := a.now })

variable (json : Nlohmann) (invoke : Invoke H) (router : Router H)
  (words : Generator) (bufsize : Nat) (beyond : Bytes)

/-- The plain server and the children it forks. -/
def serving : Forks Parent PlainAdmission
    (Child Bytes × (SocketState ⊕ Reply H × SendState)) (SocketRead ⊕ SocketWrite)
    (Child Bytes × Run (Exchange H)) where
  turn p a :=
    let (p, child) := iteration words p a
    (p, child.map fun k =>
      (k, .inl { resbytes := 0, req := [], buf := k.connection }))
  child := Loop.family fun k =>
    HttpConnection.processLoop json invoke (some router) (k.draws words)
      bufsize beyond

end HttpServer

/-! ## The TLS server -/

/-- An iteration of the TLS server. -/
structure TlsAdmission where
  accept : Accept
  handshake : Handshake
  fork : Option Nat
  now : Int

namespace TlsAdmission

/-- The iteration as the parent goes through it. -/
def inParent (a : TlsAdmission) : TlsIntake where
  accept := a.accept
  handshake := a.handshake
  fork :=
    match a.fork with
    | some pid => .parent pid
    | none => .failed

/-- The iteration as the child goes through it. -/
def inChild (a : TlsAdmission) : TlsIntake where
  accept := a.accept
  handshake := a.handshake
  fork := .child

/-- The SSL object with which the iteration goes on to `fork`. -/
def established (a : TlsAdmission) : Option SslHandle := a.inParent.established

end TlsAdmission

namespace HttpsServer

/-- One iteration of `clientIntakeCycle`, in the parent and up to the construction
of the connection in the child. -/
def iteration (words : Generator) (p : Parent) (a : TlsAdmission) :
    Parent × Option (Child SslHandle) :=
  let (client, holds) := HttpServer.acceptConnection a.accept p.holds
  if client.sockfd = kInvalidSocket then
    ({ holds := client.destroy holds, drawn := p.drawn }, none)
  else
    match sslHandshake a.handshake holds with
    | (none, holds) =>
        ({ holds := client.destroy holds, drawn := p.drawn + 1 }, none)
    | (some ssl, holds) =>
      let after : Parent := { holds := client.destroy holds, drawn := p.drawn + 1 }
      match a.fork with
      | none => (after, none)
      | some _ =>
          (after,
            some { client := client, id := nthId words p.drawn, connection := ssl,
                   holds := holds.closeListener, drawn := p.drawn + 1, now :=
                     a.now })

variable (json : Nlohmann) (invoke : Invoke H) (router : Router H)
  (words : Generator) (bufsize : Nat)

/-- The TLS server and the children it forks. -/
def serving : Forks Parent TlsAdmission
    (Child SslHandle × (TlsState ⊕ Reply H × SendState))
    (TlsRead ⊕ (Int → TlsWrite)) (Child SslHandle × Run (Exchange H)) where
  turn p a :=
    let (p, child) := iteration words p a
    (p, child.map fun k => (k, HttpsConnection.unread))
  child := Loop.family fun k =>
    HttpsConnection.processLoop json invoke (some router) (k.draws words) bufsize

end HttpsServer

/-! ## What an iteration does -/

/-- The child of an iteration of the plain server. -/
def HttpServer.forked (words : Generator) (p : Parent) (a : PlainAdmission)
    (client : Descriptor) : Child Bytes where
  client := { sockfd := client.fd }
  id := nthId words p.drawn
  connection := a.buf
  holds := { p.holds with fds := client.fd :: p.holds.fds }.closeListener
  drawn := p.drawn + 1
  now := a.now

/-- The parent of the plain server holds after an iteration what it held before. -/
theorem HttpServer.iteration_eq (words : Generator) (p : Parent)
    (a : PlainAdmission) :
    iteration words p a =
      match a.accept with
      | .failed => (p, none)
      | .accepted client =>
          ({ holds := p.holds, drawn := p.drawn + 1 },
            a.fork.map fun _ => forked words p a client) := by
  obtain ⟨accept, fork, buf, now⟩ := a
  cases accept with
  | failed =>
      exact congrArg (fun q => (Parent.mk q p.drawn, none)) (destroy_invalid _)
  | accepted client =>
    have hclosed := destroy_accepted client p.holds
    have hvalid := descriptor_valid client
    cases fork with
    | none =>
      refine (if_neg hvalid).trans ?_
      exact congrArg (fun q => (Parent.mk q (p.drawn + 1), none)) hclosed
    | some pid =>
      refine (if_neg hvalid).trans ?_
      exact congrArg (fun q => (Parent.mk q (p.drawn + 1), some _)) hclosed

/-- The child of an iteration of the TLS server. -/
def HttpsServer.forked (words : Generator) (p : Parent) (a : TlsAdmission)
    (client : Descriptor) (ssl : SslHandle) : Child SslHandle where
  client := { sockfd := client.fd }
  id := nthId words p.drawn
  connection := ssl
  holds := { p.holds with
    fds := client.fd :: p.holds.fds, ssls := ssl :: p.holds.ssls }.closeListener
  drawn := p.drawn + 1
  now := a.now

/-- The parent of the TLS server keeps the SSL object of a handshake that succeeds,
and nothing else. -/
theorem HttpsServer.iteration_eq (words : Generator) (p : Parent)
    (a : TlsAdmission) :
    iteration words p a =
      match a.accept, a.handshake with
      | .failed, _ => (p, none)
      | .accepted client, .established ssl =>
          ({ holds := { p.holds with ssls := ssl :: p.holds.ssls },
             drawn := p.drawn + 1 },
            a.fork.map fun _ => forked words p a client ssl)
      | .accepted _, _ => ({ holds := p.holds, drawn := p.drawn + 1 }, none) := by
  obtain ⟨accept, handshake, fork, now⟩ := a
  cases accept with
  | failed =>
      exact congrArg (fun q => (Parent.mk q p.drawn, none)) (destroy_invalid _)
  | accepted client =>
    have hvalid := descriptor_valid client
    refine (if_neg hvalid).trans ?_
    cases handshake with
    | noObject =>
      exact congrArg (fun q => (Parent.mk q (p.drawn + 1), none))
        (destroy_accepted client p.holds)
    | refused ssl =>
      have hfreed := @sslHandshake_none (.refused ssl)
        { p.holds with fds := client.fd :: p.holds.fds } _ rfl
      refine congrArg (fun q => (Parent.mk q (p.drawn + 1), none)) ?_
      rw [hfreed]
      exact destroy_accepted client p.holds
    | established ssl =>
      have hkept :=
        destroy_accepted client { p.holds with ssls := ssl :: p.holds.ssls }
      cases fork with
      | none => exact congrArg (fun q => (Parent.mk q (p.drawn + 1), none)) hkept
      | some pid =>
        exact congrArg (fun q => (Parent.mk q (p.drawn + 1), some _)) hkept

/-! ## The iterations are those of the intake loops -/

/-- The parent goes on as the plain loop does, and a child that is forked exits as
the plain loop leaves it when its connection is destroyed. -/
theorem HttpServer.iteration_intakeTurn (words : Generator) (p : Parent)
    (a : PlainAdmission) :
    intakeTurn p.holds a.inParent = .next (iteration words p a).1.holds ∧
      ∀ k, (iteration words p a).2 = some k →
        intakeTurn p.holds a.inChild =
          .stop (HttpConnection.destroy k.client k.holds) := by
  have hiteration := iteration_eq words p a
  obtain ⟨accept, fork, buf, now⟩ := a
  cases accept with
  | failed =>
    rw [hiteration]
    exact ⟨congrArg Turn.next (destroy_invalid _), by rintro k ⟨⟩⟩
  | accepted client =>
    have hvalid := descriptor_valid client
    have hkept := congrArg (@Turn.next Process Process)
      (destroy_accepted client p.holds)
    rw [hiteration]
    cases fork with
    | none => exact ⟨(if_neg hvalid).trans hkept, by rintro k ⟨⟩⟩
    | some pid =>
      refine ⟨(if_neg hvalid).trans hkept, ?_⟩
      rintro k ⟨⟩
      exact if_neg hvalid

/-- So does the TLS loop. -/
theorem HttpsServer.iteration_intakeTurn (words : Generator) (p : Parent)
    (a : TlsAdmission) :
    intakeTurn p.holds a.inParent = .next (iteration words p a).1.holds ∧
      ∀ k, (iteration words p a).2 = some k →
        intakeTurn p.holds a.inChild =
          .stop (HttpsConnection.destroy k.connection k.client k.holds) := by
  have hiteration := iteration_eq words p a
  have hparent : intakeTurn p.holds a.inParent =
      .next { p.holds with
        ssls := a.inParent.established.toList ++ p.holds.ssls } := by
    refine (intakeTurn_eq p.holds a.inParent).resolve_right fun h => ?_
    have hfork : a.inParent.fork ≠ .child := by
      unfold TlsAdmission.inParent
      cases a.fork <;> exact fun h => by cases h
    exact hfork h.1
  rw [hparent, hiteration]
  obtain ⟨accept, handshake, fork, now⟩ := a
  cases accept with
  | failed => exact ⟨rfl, by rintro k ⟨⟩⟩
  | accepted client =>
    cases handshake with
    | noObject => exact ⟨rfl, by rintro k ⟨⟩⟩
    | refused ssl => exact ⟨rfl, by rintro k ⟨⟩⟩
    | established ssl =>
      cases fork with
      | none => exact ⟨rfl, by rintro k ⟨⟩⟩
      | some pid =>
        refine ⟨rfl, ?_⟩
        rintro k ⟨⟩
        exact if_neg (descriptor_valid client)

theorem five_pos : (0 : Int) < 5 := by decide

theorem six_pos : (0 : Int) < 6 := by decide

/-- The descriptor of a client. -/
def guestDescriptor : Descriptor where
  fd := 5
  pos := five_pos

/-- The descriptor of the next one. -/
def neighbourDescriptor : Descriptor where
  fd := 6
  pos := six_pos

/-- A generator that counts. -/
def counting : Generator := fun n => (BitVec.ofNat 64 n, 0)

/-- A router that finds a handler for `/a`. -/
def guestRouter : Router Nat :=
  RouterManager.ofCalls [{ method := .get, path := ascii "/a", handler := some 3 }]

/-! ## Runs of the plain server -/

/-- `accept` has returned a descriptor. -/
def Accept.isAccepted : Accept → Bool
  | .failed => false
  | .accepted _ => true

namespace HttpServer

variable {json : Nlohmann} {invoke : Invoke H} {router : Router H}
  {words : Generator} {bufsize : Nat} {beyond : Bytes}

theorem serving_child : (serving json invoke router words bufsize beyond).child =
    Loop.family fun k => HttpConnection.processLoop json invoke (some router)
      (k.draws words) bufsize beyond := rfl

/-- The parent draws an id for each client, and holds what it held. -/
theorem iterated_eq (p : Parent) (admissions : List PlainAdmission) :
    (serving json invoke router words bufsize beyond).iterated p admissions =
      { holds := p.holds,
        drawn := p.drawn + admissions.countP fun a => a.accept.isAccepted } := by
  induction admissions generalizing p with
  | nil => rfl
  | cons a admissions ih =>
    have hturn : ((serving json invoke router words bufsize beyond).turn p a).1 =
        { holds := p.holds,
          drawn := p.drawn + if a.accept.isAccepted then 1 else 0 } := by
      show (iteration words p a).1 = _
      rw [iteration_eq]
      cases a.accept <;> rfl
    rw [Forks.iterated, List.foldl_cons, ← Forks.iterated, ih, hturn,
      List.countP_cons]
    congr 1
    show p.drawn + _ + _ = _
    omega

/-- A child is forked in an iteration that has accepted a client. -/
theorem turn_born {p : Parent} {a : PlainAdmission} {k : Child Bytes}
    {session : SocketState ⊕ Reply H × SendState}
    (h : ((serving json invoke router words bufsize beyond).turn p a).2 =
      some (k, session)) :
    ∃ client, a.accept = .accepted client ∧ k = forked words p a client := by
  change (iteration words p a).2.map _ = some (k, session) at h
  rw [iteration_eq] at h
  obtain ⟨accept, fork, buf, now⟩ := a
  cases accept with
  | failed => cases h
  | accepted client =>
    cases fork with
    | none => cases h
    | some pid =>
      cases h
      exact ⟨client, rfl, rfl⟩

/-- Whatever the order of events: at the head of its loop the parent holds its
listening socket only, and each child, while it serves, the descriptor of its own
client only, and nothing when its connection is destroyed. -/
theorem serving_owns {events : List (ForkEvent PlainAdmission
      (SocketRead ⊕ SocketWrite))}
    (hevents : (serving json invoke router words bufsize beyond).Scheduled
      listeningParent events) :
    let s := (serving json invoke router words bufsize beyond).run listeningParent
      events
    s.parent.holds = listeningOnly ∧
      ∀ (i : Nat) (status : Status _ _), s.children[i]? = some status →
        ∃ client : Descriptor, (Loop.tag status).client = { sockfd := client.fd } ∧
          (Loop.tag status).holds =
            { listening := false, fds := [client.fd], ssls := [] } ∧
          HttpConnection.destroy (Loop.tag status).client (Loop.tag status).holds =
            { listening := false, fds := [], ssls := [] } := by
  intro s
  refine ⟨?_, ?_⟩
  · rw [Forks.parent_run, iterated_eq]
    rfl
  · intro i status hstatus
    obtain ⟨before, a, after, k, session, _, hturn, _, rfl⟩ :=
      Forks.child_of_family serving_child hevents hstatus
    obtain ⟨client, _, rfl⟩ := turn_born hturn
    rw [Loop.tag_tagged, iterated_eq]
    refine ⟨client, rfl, rfl, ?_⟩
    exact UniServer.Http.connection_destroy client listeningOnly.closeListener

/-- A client of the plain server. -/
def plainGuest : PlainAdmission where
  accept := .accepted guestDescriptor
  fork := some 100
  buf := []
  now := 0

/-- The next one. -/
def plainNeighbour : PlainAdmission :=
  { plainGuest with accept := .accepted neighbourDescriptor, fork := some 101 }

/-- Their server. -/
abbrev plainServing : Forks Parent PlainAdmission
    (Child Bytes × (SocketState ⊕ Reply Nat × SendState))
    (SocketRead ⊕ SocketWrite) (Child Bytes × Run (Exchange Nat)) :=
  serving readsNothing acknowledge guestRouter counting 1024 []

/-- The first client closes its connection when the second is there. -/
def plainEvents : List (ForkEvent PlainAdmission (SocketRead ⊕ SocketWrite)) :=
  [.parent plainGuest, .child 0 (.inl (.failed 4)), .parent plainNeighbour,
    .child 0 (.inl .closed), .child 1 (.inl (.failed 4))]

theorem scheduled_plainEvents :
    plainServing.Scheduled listeningParent plainEvents :=
  (((((Forks.scheduled_nil plainServing listeningParent).snoc_parent
    plainGuest).snoc_child (i := 0) (by decide) _).snoc_parent
    plainNeighbour).snoc_child (i := 0) (by decide) _).snoc_child (i := 1)
    (by decide) _

/-- Each child holds the descriptor of its own client, the parent of neither. -/
theorem serving_owns_plainEvents :
    (plainServing.run listeningParent plainEvents).parent.holds = listeningOnly ∧
      ∃ first second,
        (plainServing.run listeningParent plainEvents).children = [first, second] ∧
        (Loop.tag first).holds =
          { listening := false, fds := [5], ssls := [] } ∧
        HttpConnection.destroy (Loop.tag first).client (Loop.tag first).holds =
          { listening := false, fds := [], ssls := [] } ∧
        (Loop.tag second).holds =
          { listening := false, fds := [6], ssls := [] } ∧
        HttpConnection.destroy (Loop.tag second).client (Loop.tag second).holds =
          { listening := false, fds := [], ssls := [] } := by
  obtain ⟨hparent, hchildren⟩ := serving_owns scheduled_plainEvents
  refine ⟨hparent, _, _, rfl, by decide +kernel, ?_, by decide +kernel, ?_⟩
  · obtain ⟨_, _, _, hdestroyed⟩ := hchildren 0 _ rfl
    exact hdestroyed
  · obtain ⟨_, _, _, hdestroyed⟩ := hchildren 1 _ rfl
    exact hdestroyed

end HttpServer

/-! ## Runs of the TLS server -/

/-- The SSL objects of these clients whose handshake succeeded, the last first. -/
def sessions (admissions : List TlsAdmission) : List SslHandle :=
  (admissions.filterMap TlsAdmission.established).reverse

theorem sessions_cons (a : TlsAdmission) (admissions : List TlsAdmission) :
    sessions (a :: admissions) =
      sessions admissions ++ a.established.toList := by
  unfold sessions
  cases h : a.established with
  | none => rw [List.filterMap_cons_none h, Option.toList_none, List.append_nil]
  | some ssl =>
    rw [List.filterMap_cons_some h, List.reverse_cons, Option.toList_some]

namespace HttpsServer

variable {json : Nlohmann} {invoke : Invoke H} {router : Router H}
  {words : Generator} {bufsize : Nat}

theorem serving_child : (serving json invoke router words bufsize).child =
    Loop.family fun k => HttpsConnection.processLoop json invoke (some router)
      (k.draws words) bufsize := rfl

/-- The parent draws an id for each client, and keeps the SSL object of each
handshake that succeeds. -/
theorem iterated_eq (p : Parent) (admissions : List TlsAdmission) :
    (serving json invoke router words bufsize).iterated p admissions =
      { holds := { p.holds with ssls := sessions admissions ++ p.holds.ssls },
        drawn := p.drawn + admissions.countP fun a => a.accept.isAccepted } := by
  induction admissions generalizing p with
  | nil => rfl
  | cons a admissions ih =>
    have hturn : ((serving json invoke router words bufsize).turn p a).1 =
        { holds := { p.holds with
            ssls := a.established.toList ++ p.holds.ssls },
          drawn := p.drawn + if a.accept.isAccepted then 1 else 0 } := by
      show (iteration words p a).1 = _
      rw [iteration_eq]
      obtain ⟨accept, handshake, fork, now⟩ := a
      cases accept with
      | failed => rfl
      | accepted client => cases handshake <;> rfl
    rw [Forks.iterated, List.foldl_cons, ← Forks.iterated, ih, hturn,
      List.countP_cons, sessions_cons, List.append_assoc]
    congr 1
    show p.drawn + _ + _ = _
    omega

/-- A child is forked in an iteration that has accepted a client and shaken hands
with it. -/
theorem turn_born {p : Parent} {a : TlsAdmission} {k : Child SslHandle}
    {session : TlsState ⊕ Reply H × SendState}
    (h : ((serving json invoke router words bufsize).turn p a).2 =
      some (k, session)) :
    ∃ client ssl, a.accept = .accepted client ∧ a.handshake = .established ssl ∧
      k = forked words p a client ssl ∧ session = HttpsConnection.unread := by
  change (iteration words p a).2.map _ = some (k, session) at h
  rw [iteration_eq] at h
  obtain ⟨accept, handshake, fork, now⟩ := a
  cases accept with
  | failed => cases h
  | accepted client =>
    cases handshake with
    | noObject => cases h
    | refused ssl => cases h
    | established ssl =>
      cases fork with
      | none => cases h
      | some pid =>
        cases h
        exact ⟨client, ssl, rfl, rfl, rfl, rfl⟩

/-- Whatever the order of events: at the head of its loop the parent holds its
listening socket and the SSL object of every client with which it has shaken hands.
A child holds a copy of those made before it was forked, even when its own
connection is destroyed, beside the descriptor and the SSL object of its own
client. -/
theorem serving_holdings {events : List (ForkEvent TlsAdmission
      (TlsRead ⊕ (Int → TlsWrite)))}
    (hevents : (serving json invoke router words bufsize).Scheduled
      listeningParent events) :
    let s := (serving json invoke router words bufsize).run listeningParent events
    s.parent.holds = { listeningOnly with
        ssls := sessions (Forks.iterations events) } ∧
      ∀ (i : Nat) (status : Status _ _), s.children[i]? = some status →
        ∃ before a after client ssl, Forks.iterations events =
          before ++ a :: after ∧
          a.accept = .accepted client ∧ a.handshake = .established ssl ∧
          (Loop.tag status).client = { sockfd := client.fd } ∧
          (Loop.tag status).connection = ssl ∧
          (Loop.tag status).holds = { listening := false, fds := [client.fd],
                                      ssls := ssl :: sessions before } ∧
          HttpsConnection.destroy (Loop.tag status).connection
              (Loop.tag status).client (Loop.tag status).holds =
            { listening := false, fds := [], ssls := sessions before } := by
  intro s
  refine ⟨?_, ?_⟩
  · rw [Forks.parent_run, iterated_eq]
    simp [listeningParent, listeningOnly]
  · intro i status hstatus
    obtain ⟨before, a, after, k, session, hsplit, hturn, _, rfl⟩ :=
      Forks.child_of_family serving_child hevents hstatus
    obtain ⟨client, ssl, haccept, hshake, rfl, _⟩ := turn_born hturn
    rw [Loop.tag_tagged, iterated_eq]
    refine ⟨before, a, after, client, ssl, hsplit, haccept, hshake, rfl,
      rfl, ?_, ?_⟩
    · simp [forked, Process.closeListener, listeningParent, listeningOnly]
    · have hdestroyed := connection_destroy ssl client
        { listening := false, fds := [], ssls := sessions before }
      rw [← hdestroyed]
      simp [forked, Process.closeListener, listeningParent, listeningOnly]

/-! ### What each child sends -/

/-- Whatever the parent and the other children do: a child that is sending sends the
text that its own reads call for, from its beginning and with the id and the time of
its own, and it ends as its own reads and writes say. -/
theorem serving_isolated {events : List (ForkEvent TlsAdmission
      (TlsRead ⊕ (Int → TlsWrite)))}
    (hevents : (serving json invoke router words bufsize).Scheduled
      listeningParent events)
    (hbound : bufsize ≤ 2 ^ 31 - 1 - kReceptionBufLimit)
    (hreads : ∀ i c, ForkEvent.child i (.inl (.data c)) ∈ events →
      0 < c.length ∧ c.length ≤ bufsize)
    (hwrites : ∀ i sslWrite, ForkEvent.child i (.inr sslWrite) ∈ events →
      HttpsConnection.TakesOffered sslWrite)
    {i : Nat} {status : Status _ _}
    (hstatus : ((serving json invoke router words bufsize).run listeningParent
      events).children[i]? = some status) :
    let reads := Loop.lefts (Forks.own i events)
    (∀ k reply s, status = .waits (k, .inr (reply, s)) →
      HttpsConnection.Owed json invoke (some router) (k.draws words) bufsize reads
        reply ∧ s.accepted <+: reply.text) ∧
    ∀ k out, status = .left (k, out) →
      HttpsConnection.Ends json invoke (some router) (k.draws words) bufsize reads
        out := by
  obtain ⟨before, a, after, k, session, _, hturn, _, rfl⟩ :=
    Forks.child_of_family serving_child hevents hstatus
  obtain ⟨client, ssl, _, _, _, rfl⟩ := turn_born hturn
  have hownReads : ∀ c, Sum.inl (.data c) ∈ Forks.own i events →
      0 < c.length ∧ c.length ≤ bufsize :=
        fun c hc => hreads i c (Forks.mem_own.mp hc)
  have hownWrites : ∀ w, Sum.inr w ∈ Forks.own i events →
      HttpsConnection.TakesOffered w :=
        fun w hw => hwrites i w (Forks.mem_own.mp hw)
  rcases Loop.after_cases (HttpsConnection.processLoop json invoke (some router)
      (k.draws words) bufsize) HttpsConnection.unread (Forks.own i events) with
    ⟨out, hleft, hrun⟩ | ⟨state, hwaits, _, hgoes⟩
  · rw [hleft]
    refine ⟨?_, ?_⟩
    · intro k' reply s h
      cases h
    · intro k' out' h
      cases h
      exact HttpsConnection.process_ends hbound hownReads hownWrites hrun
  · rw [hwaits]
    refine ⟨?_, ?_⟩
    · intro k' reply s h
      cases h
      rcases HttpsConnection.process_goes_cases hbound hownReads hownWrites
        hgoes with
        ⟨s', hs', _⟩ | ⟨reply', s', hs', howed, hdelivered⟩
      · cases hs'
      · cases hs'
        exact ⟨howed, hdelivered.isPrefix⟩
    · intro k' out h
      cases h

/-- A client whose message arrives on a connection in order reads the response of
its outcome, in any order of the events of the parent and of all other children. -/
theorem serving_answered {k : Child SslHandle} {reads : List TlsRead} {req : Bytes}
    (harrives : HttpsConnection.MessageArrives bufsize reads req)
    {resp : Response} {called : List (H × Request)}
    (houtcome : Outcome json invoke (some router) (k.draws words) req resp called)
    (hread : Readable resp)
    (hshort : ∀ out, serialize json resp = .ok out → out.length < 2 ^ 31)
    (t : SslTransport) :
    ∃ out n, decodeResponse out = some (resp.toText (json.text 4 resp.body)) ∧
      ∀ events, (serving json invoke router words bufsize).Scheduled listeningParent
          events →
        ∀ i, ((serving json invoke router words bufsize).births listeningParent
            (Forks.iterations events))[i]? = some (k, HttpsConnection.unread) →
          Forks.own i events = reads.map .inl ++ (t.writes n).map .inr →
          ((serving json invoke router words bufsize).run listeningParent
              events).children[i]? =
            some (.left
              (k, .ok { ret := true, accepted := out, called := called })) := by
  obtain ⟨out, hout⟩ := (serialize_ok_iff json resp).mpr hread.dumpable
  have hexecution := houtcome.execution_eq harrives.length_lt
  rw [hout, noexcept_ok] at hexecution
  obtain ⟨n, hprocess⟩ :=
    HttpsConnection.process_delivers harrives hexecution t (hshort out hout)
  refine ⟨out, n, Response.decode_eq hread.sendable hout, ?_⟩
  intro events hevents i hbirth hown
  rw [Forks.children_run hevents, hbirth, Option.map_some, serving_child,
    Loop.after_family, hown, Loop.after_eq_left_iff.mpr hprocess]
  rfl

/-! ### Ids -/

/-- The clients accepted in these iterations. -/
def accepts (admissions : List TlsAdmission) : Nat :=
  admissions.countP fun a => a.accept.isAccepted

theorem drawn_iterated (admissions : List TlsAdmission) :
    ((serving json invoke router words bufsize).iterated listeningParent
      admissions).drawn = accepts admissions := by
  rw [iterated_eq]
  exact Nat.zero_add _

/-- The id that an iteration gives to the client that it accepts, if it accepts
one. -/
def clientId (words : Generator) (p : Parent) (a : TlsAdmission) : Option Bytes :=
  if a.accept.isAccepted then some (nthId words p.drawn) else none

/-- The id of a client is drawn in the parent, the id of its request in the child,
by the next call on a copy of the same generator: so the id of a request is the one
that the parent gives to the next client that it accepts, whether that one is served
or not. -/
theorem serving_request_id {events : List (ForkEvent TlsAdmission
      (TlsRead ⊕ (Int → TlsWrite)))}
    (hevents : (serving json invoke router words bufsize).Scheduled
      listeningParent events)
    {i : Nat} {status : Status _ _}
    (hstatus : ((serving json invoke router words bufsize).run listeningParent
      events).children[i]? = some status) :
    ∃ before a after, Forks.iterations events = before ++ a :: after ∧
      clientId words ((serving json invoke router words bufsize).iterated
          listeningParent before) a = some (Loop.tag status).id ∧
      (Loop.tag status).id = nthId words (accepts before) ∧
      ((Loop.tag status).draws words).requestId = nthId words (accepts before + 1) ∧
      ∀ later b rest, after = later ++ b :: rest → accepts later = 0 →
        b.accept.isAccepted = true →
        clientId words ((serving json invoke router words bufsize).iterated
            listeningParent (before ++ a :: later)) b =
          some ((Loop.tag status).draws words).requestId := by
  obtain ⟨before, a, after, k, session, hsplit, hturn, _, rfl⟩ :=
    Forks.child_of_family serving_child hevents hstatus
  obtain ⟨client, ssl, haccept, _, rfl, _⟩ := turn_born hturn
  have hrequest :
      ((forked words ((serving json invoke router words bufsize).iterated
      listeningParent before) a client ssl).draws words).requestId =
        nthId words (accepts before + 1) :=
    congrArg (fun n => nthId words (n + 1)) (drawn_iterated before)
  rw [Loop.tag_tagged, hrequest]
  refine ⟨before, a, after, hsplit, ?_, ?_, rfl, ?_⟩
  · rw [clientId, haccept]
    rfl
  · exact congrArg (nthId words) (drawn_iterated before)
  · intro later b rest _ hlater hnext
    have hdrawn : accepts (before ++ a :: later) = accepts before + 1 := by
      have hone : a.accept.isAccepted = true := by
        rw [haccept]
        rfl
      unfold accepts at hlater ⊢
      rw [List.countP_append, List.countP_cons, hlater, hone]
      rfl
    rw [clientId, if_pos hnext, drawn_iterated, hdrawn]

/-! ### Two clients -/

/-- A client of the TLS server. -/
def tlsGuest : TlsAdmission where
  accept := .accepted guestDescriptor
  handshake := .established 1
  fork := some 100
  now := 0

/-- The next one. -/
def tlsNeighbour : TlsAdmission where
  accept := .accepted neighbourDescriptor
  handshake := .established 2
  fork := some 101
  now := 0

/-- Their server. -/
abbrev guestServing : Forks Parent TlsAdmission
    (Child SslHandle × (TlsState ⊕ Reply Nat × SendState))
    (TlsRead ⊕ (Int → TlsWrite)) (Child SslHandle × Run (Exchange Nat)) :=
  serving readsNothing acknowledge guestRouter counting 1024

/-- The child of the first client. -/
def guestChild : Child SslHandle :=
  forked counting listeningParent tlsGuest guestDescriptor 1

/-- The request of the first client arrives, and then the second client. -/
def tlsArrivals : List (ForkEvent TlsAdmission (TlsRead ⊕ (Int → TlsWrite))) :=
  [.parent tlsGuest, .child 0 (.inl (.data plainRequest)), .parent tlsNeighbour,
    .child 1 (.inl .wantRead)]

theorem scheduled_tlsArrivals :
    guestServing.Scheduled listeningParent tlsArrivals :=
  ((((Forks.scheduled_nil guestServing listeningParent).snoc_parent
    tlsGuest).snoc_child (i := 0) (by decide) _).snoc_parent
    tlsNeighbour).snoc_child (i := 1) (by decide) _

/-- The second child holds a copy of the SSL object of the first client, which is
left when its own connection is destroyed; the parent keeps both. -/
theorem serving_holdings_tlsArrivals :
    (guestServing.run listeningParent tlsArrivals).parent.holds =
        { listening := true, fds := [], ssls := [2, 1] } ∧
      ∃ first second,
        (guestServing.run listeningParent tlsArrivals).children =
          [first, second] ∧
        (Loop.tag first).holds = { listening := false, fds := [5], ssls := [1] } ∧
        (Loop.tag second).holds =
          { listening := false, fds := [6], ssls := [2, 1] } ∧
        HttpsConnection.destroy (Loop.tag second).connection
            (Loop.tag second).client (Loop.tag second).holds =
          { listening := false, fds := [], ssls := [1] } := by
  obtain ⟨hparent, hchildren⟩ := serving_holdings scheduled_tlsArrivals
  have hboth : ∀ status,
      (guestServing.run listeningParent tlsArrivals).children[1]? = some status →
      (Loop.tag status).holds =
          { listening := false, fds := [6], ssls := [2, 1] } →
      HttpsConnection.destroy (Loop.tag status).connection (Loop.tag status).client
          (Loop.tag status).holds =
        { listening := false, fds := [], ssls := [1] } := by
    intro status hstatus hsecond
    obtain ⟨before, _, _, _, _, _, _, _, _, _, hholds, hdestroyed⟩ :=
      hchildren 1 status hstatus
    rw [hsecond, Process.mk.injEq] at hholds
    rw [hdestroyed, ← (List.cons.inj hholds.2.2).2]
  refine ⟨hparent, _, _, rfl, by decide +kernel, by decide +kernel,
    hboth _ rfl (by decide +kernel)⟩

/-! ### The child of the first client -/

/-- Its own events. -/
theorem own_tlsArrivals : Forks.own 0 tlsArrivals = [.inl (.data plainRequest)] :=
  rfl

/-- One octet of the answer is taken, and then the other child reads. -/
def tlsBegun : List (ForkEvent TlsAdmission (TlsRead ⊕ (Int → TlsWrite))) :=
  tlsArrivals ++
    [.child 0 (.inr HttpsConnection.takesOne), .child 1 (.inl .wantRead)]

theorem scheduled_tlsBegun : guestServing.Scheduled listeningParent tlsBegun := by
  refine scheduled_tlsArrivals.append fun i d hd => ?_
  have hlength :
      (guestServing.run listeningParent tlsArrivals).children.length = 2 := rfl
  have hi : i = 0 ∨ i = 1 := by
    simp only [List.mem_cons, ForkEvent.child.injEq, List.not_mem_nil,
      or_false] at hd
    exact hd.imp And.left And.left
  omega

/-- Where its loop is. -/
theorem goes_tlsBegun :
    ∃ reply s,
      (guestServing.run listeningParent tlsBegun).children[0]? =
        some (.waits (guestChild, .inr (reply, s))) ∧ s.accepted.length = 1 := by
  have hbirth : (guestServing.births listeningParent
      (Forks.iterations tlsBegun))[0]? =
    some (guestChild, HttpsConnection.unread) := rfl
  have hown : Forks.own 0 tlsBegun =
      [.inl (.data plainRequest), .inr HttpsConnection.takesOne] := rfl
  have hgoes :
      ((HttpsConnection.processLoop readsNothing acknowledge (some guestRouter)
          (guestChild.draws counting) 1024).goes HttpsConnection.unread
          (Forks.own 0 tlsBegun)).bind
        (fun state => state.getRight?.map fun r => r.2.accepted.length) =
      some 1 := by
    decide +kernel
  have hruns :
      ((HttpsConnection.processLoop readsNothing acknowledge (some guestRouter)
          (guestChild.draws counting) 1024).run HttpsConnection.unread
          (Forks.own 0 tlsBegun)).isNone = true := by
    decide +kernel
  rw [Forks.children_run scheduled_tlsBegun, hbirth, Option.map_some, serving_child,
    Loop.after_family]
  rcases Loop.after_cases (HttpsConnection.processLoop readsNothing acknowledge
      (some guestRouter) (guestChild.draws counting) 1024) HttpsConnection.unread
      (Forks.own 0 tlsBegun) with ⟨out, _, hrun⟩ | ⟨state, hafter, _, hstate⟩
  · rw [hrun] at hruns
    cases hruns
  · rw [hafter]
    rw [hstate, Option.bind_some] at hgoes
    rcases state with waiting | ⟨reply, s⟩
    · cases hgoes
    · exact ⟨reply, s, rfl, Option.some_inj.mp hgoes⟩

/-- What was taken begins the answer to its own message, and the other client has no
part in it. -/
theorem serving_isolated_tlsBegun :
    ∃ reply s,
      (guestServing.run listeningParent tlsBegun).children[0]? =
        some (.waits (guestChild, .inr (reply, s))) ∧
      s.accepted.length = 1 ∧ s.accepted <+: reply.text ∧
      HttpsConnection.Owed readsNothing acknowledge (some guestRouter)
        (guestChild.draws counting) 1024 [.data plainRequest] reply := by
  obtain ⟨reply, s, hchild, hone⟩ := goes_tlsBegun
  have hreads : ∀ i c, ForkEvent.child i (.inl (.data c)) ∈ tlsBegun →
      0 < c.length ∧ c.length ≤ 1024 := by
    intro i c hc
    have hdata : c = plainRequest := by
      simp [tlsBegun, tlsArrivals] at hc
      exact hc.2
    rw [hdata]
    decide +kernel
  have hwrites : ∀ i sslWrite, ForkEvent.child i (.inr sslWrite) ∈ tlsBegun →
      HttpsConnection.TakesOffered sslWrite := by
    intro i sslWrite hw
    have hone : sslWrite = HttpsConnection.takesOne := by
      simp [tlsBegun, tlsArrivals] at hw
      exact hw.2
    rw [hone]
    exact HttpsConnection.takesOne_offered
  obtain ⟨howed, hpart⟩ := (serving_isolated scheduled_tlsBegun (by decide) hreads
    hwrites hchild).1 guestChild reply s rfl
  exact ⟨reply, s, hchild, hone, hpart, howed⟩

/-- The rest of the answer is taken, and the other child reads between any two
writes. -/
def tlsRest (writes : List (Int → TlsWrite)) :
    List (ForkEvent TlsAdmission (TlsRead ⊕ (Int → TlsWrite))) :=
  writes.flatMap fun w => [.child 0 (.inr w), .child 1 (.inl .wantRead)]

theorem own_tlsRest (writes : List (Int → TlsWrite)) :
    Forks.own 0 (tlsRest writes) = writes.map .inr := by
  induction writes with
  | nil => rfl
  | cons w writes ih =>
    rw [List.map_cons, ← ih]
    rfl

theorem iterations_tlsRest (writes : List (Int → TlsWrite)) :
    Forks.iterations (tlsRest writes) = [] := by
  induction writes with
  | nil => rfl
  | cons w writes ih =>
    rw [← ih]
    rfl

theorem scheduled_tlsRest (writes : List (Int → TlsWrite)) :
    guestServing.Scheduled listeningParent (tlsArrivals ++ tlsRest writes) := by
  refine scheduled_tlsArrivals.append fun i d hd => ?_
  have hlength :
      (guestServing.run listeningParent tlsArrivals).children.length = 2 := rfl
  obtain ⟨w, _, hd⟩ := List.mem_flatMap.mp hd
  have hi : i = 0 ∨ i = 1 := by
    simp only [List.mem_cons, ForkEvent.child.injEq, List.not_mem_nil,
      or_false] at hd
    exact hd.imp And.left And.left
  omega

/-- Its request is answered by the handler, with the id that the second client has
too. -/
theorem serving_answered_tlsRest :
    ∃ out n req,
      decodeResponse out =
        some ((makeResp .success (nthId counting 1) 0).toText []) ∧
      (guestServing.run listeningParent
          (tlsArrivals ++
            tlsRest (HttpsConnection.takesAll.writes n))).children[0]? =
        some (.left
          (guestChild,
            .ok { ret := true, accepted := out, called := [(3, req)] })) := by
  obtain ⟨req, hparse, hmethod, hpath⟩ :=
    parse_plainRequest (guestChild.draws counting).requestId
  have hget : guestRouter.rtree.get req.method req.path = some 3 := by
    rw [hmethod, hpath]
    decide +kernel
  have hid : req.id = nthId counting 1 := parse_id (by decide +kernel) hparse
  have houtcome : Outcome readsNothing acknowledge (some guestRouter)
      (guestChild.draws counting) plainRequest
        (makeResp .success (nthId counting 1) 0)
      [(3, req)] :=
    .found hparse rfl hget (by rw [← hid]; rfl)
  have hshort : ∀ out, serialize readsNothing
      (makeResp .success (nthId counting 1) 0) = .ok out → out.length < 2 ^ 31 := by
    intro out hout
    have hdump : readsNothing.dump
        (makeResp .success (nthId counting 1) 0).body 4 = .ok [] := rfl
    rw [serialize_eq hdump] at hout
    cases hout
    decide +kernel
  have harrives : HttpsConnection.MessageArrives 1024 [.data plainRequest]
      plainRequest :=
    HttpsConnection.messageArrives_single (by decide +kernel) (by decide +kernel)
  obtain ⟨out, n, hdecode, hanswered⟩ := serving_answered harrives houtcome
    (makeResp_readable .success 0 (by decide +kernel)) hshort
    HttpsConnection.takesAll
  refine ⟨out, n, req, hdecode, hanswered _ (scheduled_tlsRest _) 0 ?_ ?_⟩
  · rw [Forks.iterations_append, iterations_tlsRest, List.append_nil]
    rfl
  · rw [Forks.own_append, own_tlsRest, own_tlsArrivals]
    rfl

/-- The id of the first request is the id of the second client, and not that of the
first one. -/
theorem serving_request_id_tlsArrivals :
    ∃ first second,
      (guestServing.run listeningParent tlsArrivals).children = [first, second] ∧
      (Loop.tag first).id ≠ ((Loop.tag first).draws counting).requestId ∧
      clientId counting (guestServing.iterated listeningParent [tlsGuest])
          tlsNeighbour =
        some ((Loop.tag first).draws counting).requestId := by
  refine ⟨_, _, rfl, by decide +kernel, ?_⟩
  obtain ⟨before, a, after, hsplit, _, hid, _, hnext⟩ :=
    serving_request_id (i := 0) scheduled_tlsArrivals rfl
  rcases before with _ | ⟨b, before⟩
  · obtain ⟨rfl, rfl⟩ := List.cons.inj hsplit
    exact hnext [] tlsNeighbour [] rfl rfl rfl
  · -- the first child is not that of the second client
    obtain ⟨rfl, hrest⟩ := List.cons.inj hsplit
    rcases before with _ | ⟨c, before⟩
    · exact absurd hid (by decide +kernel)
    · have hlength := congrArg List.length hrest
      simp at hlength

end HttpsServer

end UniServer.Http
