/-
  Http/Send.lean --- `HttpConnection::send`.

  The loop offers what is left of the response and moves on by what the socket
  took of it.  A call of `::send` that was interrupted, or would block, is made
  again; zero and any other error end the loop.

  The outcomes of the calls are an arbitrary list, and the octets that the socket
  has taken are kept beside the counter.  Log calls are left out.
-/
import Mathlib.Data.List.TakeDrop
import UniServer.Foundation.Bytes
import UniServer.Foundation.Loop

set_option autoImplicit false

namespace UniServer.Http

open UniServer.Foundation

/-- `errno`, as far as `send` tells it apart. -/
inductive Errno where
  | eintr
  | eagain
  | ewouldblock
  | other (code : Nat)
  deriving DecidableEq

/-- The errors after which the call is made again. -/
def Errno.isRetry : Errno → Bool
  | .eintr => true
  | .eagain => true
  | .ewouldblock => true
  | .other _ => false

/-- What a call of `::send` comes to. -/
inductive SocketWrite where
  /-- a positive return value: the number of octets taken -/
  | accepted (numbytes : Nat)
  /-- zero -/
  | zero
  /-- -1, with this `errno` -/
  | failed (errno : Errno)
  deriving DecidableEq

/-- `total_send`, and the octets that the socket has taken. -/
structure SendState where
  totalSend : Nat
  accepted : Bytes
  deriving DecidableEq

/-- What `send` leaves: the value returned and the octets that the socket has
taken. -/
structure Sent where
  ret : Bool
  accepted : Bytes
  deriving DecidableEq

namespace HttpConnection

/-- The text that the next call is given: `total_size - total_send` octets from
`resp.c_str() + total_send` on. -/
def offered (resp : Bytes) (s : SendState) : Bytes := resp.drop s.totalSend

/-- One turn of the loop. -/
def sendTurn (resp : Bytes) (s : SendState) : SocketWrite → Turn SendState Sent
  | .failed errno =>
      if errno.isRetry then .next s
      else .stop { ret := false, accepted := s.accepted }
  | .zero => .stop { ret := false, accepted := s.accepted }
  | .accepted numbytes =>
      .next
        { totalSend := s.totalSend + numbytes,
          accepted := s.accepted ++ (offered resp s).take numbytes }

/-- The loop; the test at its head is `total_send < total_size`. -/
def sendLoop (resp : Bytes) : Loop SendState SocketWrite Sent where
  exit s :=
    if s.totalSend < resp.length then none
    else some { ret := true, accepted := s.accepted }
  turn := sendTurn resp

/-- Nothing is sent yet. -/
def unsent : SendState := { totalSend := 0, accepted := [] }

/-- `HttpConnection::send`, on the outcomes of its writes. -/
def send (resp : Bytes) (writes : List SocketWrite) : Option Sent :=
  (sendLoop resp).run unsent writes

/-! ## The prefix that was taken -/

/-- A socket takes at least one octet and at most what it was offered. -/
def SocketTakes (resp : Bytes) (s : SendState) : SocketWrite → Prop
  | .accepted numbytes => 1 ≤ numbytes ∧ numbytes ≤ (offered resp s).length
  | _ => True

/-- The outcomes that end the loop. -/
def IsFatal : SocketWrite → Prop
  | .accepted _ => False
  | .zero => True
  | .failed errno => errno.isRetry = false

/-- The invariant: what was taken are the first `total_send` octets. -/
structure Delivered (resp : Bytes) (s : SendState) : Prop where
  le : s.totalSend ≤ resp.length
  accepted : s.accepted = resp.take s.totalSend

theorem delivered_unsent (resp : Bytes) : Delivered resp unsent where
  le := Nat.zero_le _
  accepted := rfl

theorem Delivered.isPrefix {resp : Bytes} {s : SendState} (h : Delivered resp s) :
    s.accepted <+: resp := by
  rw [h.accepted]
  exact List.take_prefix _ _

/-- The response is whole when the counter says so. -/
theorem Delivered.eq_iff {resp : Bytes} {s : SendState} (h : Delivered resp s) :
    s.accepted = resp ↔ ¬ s.totalSend < resp.length := by
  rw [h.accepted, Nat.not_lt]
  exact List.take_eq_self_iff resp

/-- Each turn takes the next octets, once. -/
theorem Delivered.turn {resp : Bytes} {s s' : SendState} {write : SocketWrite}
    (h : Delivered resp s) (htakes : SocketTakes resp s write)
    (hturn : sendTurn resp s write = .next s') : Delivered resp s' := by
  cases write with
  | zero => cases hturn
  | failed errno =>
    cases hretry : errno.isRetry with
    | true =>
      rw [sendTurn, if_pos hretry] at hturn
      cases hturn
      exact h
    | false =>
      rw [sendTurn, if_neg (by simp [hretry])] at hturn
      cases hturn
  | accepted numbytes =>
    cases hturn
    have hle : numbytes ≤ resp.length - s.totalSend := by
      rw [← List.length_drop]
      exact htakes.2
    refine ⟨?_, ?_⟩
    · have hs := h.le
      show s.totalSend + numbytes ≤ resp.length
      omega
    · show s.accepted ++ (resp.drop s.totalSend).take numbytes =
        resp.take (s.totalSend + numbytes)
      rw [h.accepted, List.take_add]

/-- A turn that ends the loop was given a fatal outcome, and changes nothing. -/
theorem sendTurn_eq_stop_iff {resp : Bytes} {s : SendState} {write : SocketWrite}
    {out : Sent} :
    sendTurn resp s write = .stop out ↔
      IsFatal write ∧ out = { ret := false, accepted := s.accepted } := by
  cases write with
  | accepted numbytes => simp [sendTurn, IsFatal]
  | zero => simp [sendTurn, IsFatal, eq_comm]
  | failed errno =>
    cases hretry : errno.isRetry with
    | true => simp [sendTurn, IsFatal, hretry]
    | false => simp [sendTurn, IsFatal, hretry, eq_comm]

theorem exit_eq_none_iff {resp : Bytes} {s : SendState} :
    (sendLoop resp).exit s = none ↔ s.totalSend < resp.length := by
  unfold sendLoop
  by_cases h : s.totalSend < resp.length <;> simp [h]

theorem exit_eq_some {resp : Bytes} {s : SendState} {out : Sent}
    (h : (sendLoop resp).exit s = some out) :
    ¬ s.totalSend < resp.length ∧
      out = { ret := true, accepted := s.accepted } := by
  unfold sendLoop at h
  by_cases hlt : s.totalSend < resp.length
  · simp [hlt] at h
  · simp only [if_neg hlt, Option.some_inj] at h
    exact ⟨hlt, h.symm⟩

variable {resp : Bytes} {writes : List SocketWrite}

/-- The invariant holds at every point of a run. -/
theorem delivered_of_goes
    (htakes : (sendLoop resp).Permitted (SocketTakes resp) unsent writes)
    {before after : List SocketWrite} {s : SendState}
    (hsplit : writes = before ++ after)
    (hgoes : (sendLoop resp).goes unsent before = some s) : Delivered resp s := by
  subst hsplit
  refine Loop.goes_invariant (Delivered resp) ?_ htakes
    (delivered_unsent resp) hgoes
  intro s write s' hs _ hok hturn
  exact hs.turn hok hturn

/-- `send` returns true only when everything was taken, and false only on a fatal
outcome that came before. -/
theorem send_cases
    (htakes : (sendLoop resp).Permitted (SocketTakes resp) unsent writes)
    {out : Sent} (hstops : send resp writes = some out) :
    (out.ret = true ∧ out.accepted = resp) ∨
      (out.ret = false ∧ out.accepted <+: resp ∧ out.accepted ≠ resp ∧
        ∃ before write after s, writes = before ++ write :: after ∧
          (sendLoop resp).goes unsent before = some s ∧ s.accepted = out.accepted ∧
          IsFatal write) := by
  obtain ⟨before, after, s, hsplit, hgoes, hleave⟩ := Loop.run_eq_some_iff.mp hstops
  have hs := delivered_of_goes htakes hsplit hgoes
  rcases hleave with hexit | ⟨hexit, write, rest, rfl, hturn⟩
  · obtain ⟨hdone, rfl⟩ := exit_eq_some hexit
    exact Or.inl ⟨rfl, hs.eq_iff.mpr hdone⟩
  · obtain ⟨hfatal, rfl⟩ := sendTurn_eq_stop_iff.mp hturn
    have hmore : ¬ s.accepted = resp := fun h =>
      hs.eq_iff.mp h (exit_eq_none_iff.mp hexit)
    exact Or.inr
      ⟨rfl, hs.isPrefix, hmore, before, write, rest, s, hsplit, hgoes, rfl,
      hfatal⟩

/-- A fatal outcome before everything was taken makes `send` return false. -/
theorem send_of_fatal
    (htakes : (sendLoop resp).Permitted (SocketTakes resp) unsent writes)
    {before after : List SocketWrite} {write : SocketWrite} {s : SendState}
    (hsplit : writes = before ++ write :: after)
    (hgoes : (sendLoop resp).goes unsent before = some s)
    (hmore : s.accepted ≠ resp) (hfatal : IsFatal write) :
    send resp writes = some { ret := false, accepted := s.accepted } := by
  have hs := delivered_of_goes htakes hsplit hgoes
  have hexit : (sendLoop resp).exit s = none := by
    apply exit_eq_none_iff.mpr
    by_contra hdone
    exact hmore (hs.eq_iff.mpr hdone)
  rw [send, hsplit, Loop.run_of_goes hgoes]
  exact Loop.run_stop hexit (sendTurn_eq_stop_iff.mpr ⟨hfatal, rfl⟩) after

/-- Every octet is delivered once: at every point of a run the socket has taken a
prefix of the response.  `send` returns true exactly when that prefix is the whole
response, and false exactly when a zero result or an error that is not retried came
before. -/
theorem send_delivers
    (htakes : (sendLoop resp).Permitted (SocketTakes resp) unsent writes) :
    (∀ before after s, writes = before ++ after →
      (sendLoop resp).goes unsent before = some s → s.accepted <+: resp) ∧
    ∀ out, send resp writes = some out →
      out.accepted <+: resp ∧
      (out.ret = true ↔ out.accepted = resp) ∧
      (out.ret = false ↔
        ∃ before write after s, writes = before ++ write :: after ∧
          (sendLoop resp).goes unsent before = some s ∧ s.accepted ≠ resp ∧
          IsFatal write) := by
  refine ⟨?_, ?_⟩
  · intro before after s hsplit hgoes
    exact (delivered_of_goes htakes hsplit hgoes).isPrefix
  · intro out hstops
    rcases send_cases htakes
      hstops with ⟨hret, hwhole⟩ | ⟨hret, htaken, hmore, hfatal⟩
    · refine ⟨hwhole ▸ List.prefix_refl _, by simp [hret, hwhole], ?_⟩
      refine ⟨fun h => absurd (hret.symm.trans h) (by decide), ?_⟩
      rintro ⟨before, write, after, s, hsplit, hgoes, hmore, hfatal⟩
      rw [send_of_fatal htakes hsplit hgoes hmore hfatal, Option.some_inj] at hstops
      exact congrArg Sent.ret hstops.symm
    · obtain ⟨before, write, after, s, hsplit, hgoes, hsame, hend⟩ := hfatal
      exact ⟨htaken, by simp [hret, hmore],
        fun _ => ⟨before, write, after, s, hsplit, hgoes, hsame ▸ hmore, hend⟩,
        fun _ => hret⟩

/-- A partial write, an interruption and the rest. -/
theorem send_delivers_partial :
    ∃ out,
      send (ascii "abc") [.accepted 2, .failed .eintr, .accepted 1] = some out ∧
      (out.ret = true ↔ out.accepted = ascii "abc") := by
  have hstops : send (ascii "abc") [.accepted 2, .failed .eintr, .accepted 1] =
      some { ret := true, accepted := ascii "abc" } := by
    decide +kernel
  refine ⟨_, hstops, ((send_delivers ?_).2 _ hstops).2.1⟩
  refine Loop.permitted_of_next (by decide +kernel : 1 ≤ 2 ∧ 2 ≤ 3) rfl ?_
  refine Loop.permitted_of_next True.intro rfl ?_
  refine Loop.permitted_of_next (by decide +kernel : 1 ≤ 1 ∧ 1 ≤ 1) rfl ?_
  exact Loop.permitted_of_exit rfl []

end HttpConnection

end UniServer.Http
