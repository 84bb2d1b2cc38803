/-
  Http/Receive.lean --- `HttpConnection::recv` and `HttpsConnection::recv`.

  Both loops read chunks until one comes that does not fill the buffer; that chunk
  ends the message.  They differ in how a chunk is appended: the TLS loop appends
  the octets that were read, the plain loop appends the buffer as a C string, up
  to the first NUL in it or behind it.

  The outcomes of the reads are an arbitrary list.  A run that has used the list
  up without stopping is still waiting (`none`).  Log calls are left out.
-/
import UniServer.Foundation.Loop
import UniServer.Http.Process

set_option autoImplicit false

namespace UniServer.Http

open UniServer.Foundation UniServer.Common

/-- What `recv` leaves: the value returned, what it has moved into `req_`, if
anything, and the texts it has passed to `send`. -/
structure Received where
  ret : Bool
  stored : Option Bytes
  sent : List Bytes
  deriving DecidableEq

/-- The peer has closed the connection. -/
def disconnected : Run Received := .ok { ret := false, stored := none, sent := [] }

/-- The message is complete. -/
def complete (req : Bytes) : Run Received :=
  .ok { ret := true, stored := some req, sent := [] }

/-- An error response is sent, and nothing stored. -/
def refuse (json : Nlohmann) (draws : Draws) (code : RetCode) : Run Received := do
  let out ← serialize json (makeResp code draws.responseId draws.now)
  return { ret := false, stored := none, sent := [out] }

/-! ## The TLS loop -/

/-- What a call of `SSL_read` comes to. -/
inductive TlsRead where
  /-- a positive return value: the octets read -/
  | data (chunk : Bytes)
  /-- `SSL_ERROR_WANT_READ` -/
  | wantRead
  /-- `SSL_ERROR_WANT_WRITE` -/
  | wantWrite
  /-- `SSL_ERROR_ZERO_RETURN` -/
  | zeroReturn
  /-- any other error -/
  | failed
  deriving DecidableEq

/-- `resbytes` and `req`. -/
structure TlsState where
  resbytes : Int
  req : Bytes

namespace HttpsConnection

/-- One turn of the loop. -/
def recvTurn (json : Nlohmann) (draws : Draws) (bufsize : Nat) (s : TlsState) :
    TlsRead → Turn TlsState (Run Received)
  | .data chunk =>
      match addInt s.resbytes chunk.length with
      | .error e => .stop (.error e)
      | .ok resbytes =>
        if resbytes ≥ kReceptionBufLimit then
          .stop (refuse json draws .requestBufferOverflow)
        else if chunk.length < bufsize then .stop (complete (s.req ++ chunk))
        else .next { resbytes := resbytes, req := s.req ++ chunk }
  | .wantRead => .next s
  | .wantWrite => .next s
  | .zeroReturn => .stop disconnected
  | .failed => .stop (refuse json draws .internalError)

/-- The loop; there is no test at its head. -/
def recvLoop (json : Nlohmann) (draws : Draws) (bufsize : Nat) :
    Loop TlsState TlsRead (Run Received) where
  exit _ := none
  turn := recvTurn json draws bufsize

/-- `HttpsConnection::recv`, on the outcomes of its reads. -/
def recv (json : Nlohmann) (draws : Draws) (bufsize : Nat) (reads : List TlsRead) :
    Option (Run Received) :=
  (recvLoop json draws bufsize).run { resbytes := 0, req := [] } reads

end HttpsConnection

/-! ## The plain loop -/

/-- What a call of `::recv` comes to. -/
inductive SocketRead where
  /-- a positive return value: the octets read -/
  | data (chunk : Bytes)
  /-- zero -/
  | closed
  /-- -1, with this `errno` -/
  | failed (errno : Nat)
  deriving DecidableEq

/-- `resbytes`, `req` and `buf`. -/
structure SocketState where
  resbytes : Int
  req : Bytes
  buf : Bytes

/-- A read puts its octets at the front of the buffer. -/
def overwrite (buf chunk : Bytes) : Bytes := chunk ++ buf.drop chunk.length

/-- The C string at the buffer: the octets before the first NUL, and `beyond` is
what stands behind the buffer. -/
def cString (buf beyond : Bytes) : Bytes :=
  (buf ++ beyond).takeWhile fun b => b != 0

namespace HttpConnection

/-- One turn of the loop. -/
def recvTurn (json : Nlohmann) (draws : Draws) (bufsize : Nat) (beyond : Bytes)
    (s : SocketState) :
    SocketRead → Turn SocketState (Run Received)
  | .failed _ => .stop (refuse json draws .internalError)
  | .closed => .stop disconnected
  | .data chunk =>
      match addInt s.resbytes chunk.length with
      | .error e => .stop (.error e)
      | .ok resbytes =>
        if resbytes ≥ kReceptionBufLimit then
          .stop (refuse json draws .requestBufferOverflow)
        else
          -- `req.append(buf)`, without the number of octets read
          let buf := overwrite s.buf chunk
          let req := s.req ++ cString buf beyond
          if chunk.length < bufsize then .stop (complete req)
          else .next { resbytes := resbytes, req := req, buf := buf }

/-- The loop; there is no test at its head. -/
def recvLoop (json : Nlohmann) (draws : Draws) (bufsize : Nat) (beyond : Bytes) :
    Loop SocketState SocketRead (Run Received) where
  exit _ := none
  turn := recvTurn json draws bufsize beyond

/-- `HttpConnection::recv`, on the outcomes of its reads and the first content of
its buffer. -/
def recv (json : Nlohmann) (draws : Draws) (bufsize : Nat) (buf beyond : Bytes)
    (reads : List SocketRead) : Option (Run Received) :=
  (recvLoop json draws bufsize beyond).run
    { resbytes := 0, req := [], buf := buf } reads

end HttpConnection

end UniServer.Http
