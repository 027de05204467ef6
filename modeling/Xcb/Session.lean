import Xcb.Internal.Transition
import Xcb.Out

/-!
# A connection and its server

Runs of one connection against a server that handles requests in order. One step is a whole call
on the connection, or one thing the server does; calls of several threads interleave at this
grain. What happens while a call waits is the subject of `Threads`.

## History

A session remembers what the connection itself forgets: every request that was given a number,
every packet read, and every answer handed out. The history only ever grows at its end, and no
call looks at it. Request `n` of the session is entry `n - 1` of `requests`.

## The server

It takes a request once all bytes of it have arrived, and takes the next one only when this one is
answered. A request is answered by an error if it `fails`; otherwise by at least one reply, unless
it is void. A failing request may have replies before its error; nothing answers it after the
error. Every packet carries the number of the last request taken; its low 16 bits are the
`sequence` field of all packets but `KeymapNotify`.

## Main definitions

* `Session` — the two ends of a connection, what is between them, and the history
* `Session.step` — one call, or one step of the server
-/

namespace Xcb

/-! ### Requests and packets with a history -/

/-- Who made a request. -/
inductive Source
  | sync
  | call (call : SendCall)
  | owner

/-- A request that was given a number. `fails` is what the server will find out about it. -/
structure Request where
  number : BitVec 64
  source : Source
  isvoid : Bool
  flags : Flags
  workaround : Workaround
  encoding : List UInt8
  fails : Bool

/-- The body of a server's packet, with the number of the last request the server has taken. -/
structure Stamp where
  number : ℕ
  bytes : List UInt8
  deriving DecidableEq, Repr

/-- Something a caller can observe. -/
inductive Observation
  | read (p : Packet Stamp)
  | poll (cookie : ℕ) (result : Option (Option (Buffer Stamp)))
  | event (event : Option (Buffer Stamp))
  deriving DecidableEq, Repr

/-- The server: how many requests it has taken, and what it has answered to the last one. -/
structure Server where
  handled : ℕ
  replied : Bool
  errored : Bool
  deriving DecidableEq, Repr

structure Session where
  conn : XcbConnection Empty Stamp
  /-- All bytes that were written to the socket. -/
  socket : List UInt8
  requests : List Request
  /-- The flags of the last `xcb_take_socket`. -/
  ownerFlags : Flags
  /-- `*sent` and the flags of every `xcb_take_socket` with flags. -/
  handoffs : List (ℕ × Flags)
  server : Server
  /-- What the server has sent and `read_packet` has not seen. -/
  wire : List (Packet Stamp)
  log : List Observation

/-- A request of an external owner, as it writes it. -/
structure OwnerRequest where
  isvoid : Bool
  encoding : List UInt8
  fails : Bool

inductive Action
  /-- `fails k` is what the server will find out about the request numbered `k` before the call's
  own one; those in between are inserted. -/
  | send (call : SendCall) (fails : ℕ → Bool)
  | flush
  | takeSocket (flags : Flags)
  | writev (requests : List OwnerRequest)
  | getSocketBack
  | awaitReply (cookie : ℕ)
  | poll (cookie : ℕ)
  | getEvent
  | discard (request : BitVec 32)
  | handle
  | emit (responseType : BitVec 8) (sequence : BitVec 16) (bytes : List UInt8)
  | read

/-- Is this call part of a socket handoff? -/
def Action.isHandoff : Action → Bool
  | .takeSocket _ | .writev _ | .getSocketBack => true
  | _ => false

/-- Is this `xcb_discard_reply`? -/
def Action.isDiscard : Action → Bool
  | .discard _ => true
  | _ => false

namespace Session

/-- A new connection. -/
def init (size : ℕ) (maximum : BitVec 16) : Session where
  conn := XcbConnection.init size maximum
  socket := []
  requests := []
  ownerFlags := 0
  handoffs := []
  server := ⟨0, false, false⟩
  wire := []
  log := []

/-- All bytes that were put into the output stream. -/
def stream (s : Session) : List UInt8 := s.socket ++ s.conn.out.queue.take s.conn.out.queueLen

/-! ### Writing -/

/-- `_xcb_out_send`, run to its end. -/
def outSend (s : Session) (vector : List Iovec) : Session :=
  { s with
    socket := s.socket ++ gather s.conn.out.queue vector
    conn := { s.conn with out := { s.conn.out with requestWritten := s.conn.out.request } } }

/-- `write_block` -/
def writeBlock (s : Session) (vector : List (List UInt8)) : Session :=
  let (out, rest) := s.conn.out.writeBlock vector
  let s := { s with conn := { s.conn with out := out } }
  if rest = [] then s else s.outSend rest

/-- `_xcb_out_flush_to` -/
def flushTo (s : Session) (request : BitVec 64) : Session :=
  if sequenceCompare s.conn.out.requestWritten request ≥ 0 then s
  else if s.conn.out.queueLen ≠ 0 then
    let (out, vector) := s.conn.out.takeQueue
    outSend { s with conn := { s.conn with out := out } } vector
  else s

/-- `xcb_wait_for_reply`, up to the loop that polls. The caller knows the whole number of its
request and passes 32 bits of it. -/
def awaitReply (s : Session) (cookie : ℕ) : Session :=
  if s.conn.out.returnSocket.isSome then s
  else s.flushTo (widenRequest s.conn.out.request (BitVec.ofNat 32 cookie))

/-- The `GetInputFocus` requests that are numbered from `number` on, before a call's own one. -/
def syncRequests (number : BitVec 64) (fails : ℕ → Bool) : ℕ → List Request
  | 0 => []
  | count + 1 =>
    { number := number, source := .sync, isvoid := false, flags := requestDiscardReply,
      workaround := .none, encoding := syncReq, fails := fails (count + 1) } ::
      syncRequests (number + 1) fails count

/-- Number a request, and remember it. -/
def number (s : Session) (call : SendCall) (req : PreparedRequest) (fails : ℕ → Bool) : Session :=
  let (conn, count) := s.conn.numberRequest req
  { s with
    conn := conn
    requests := s.requests ++ syncRequests (s.conn.out.request + 1) fails count ++
      [{ number := conn.out.request, source := .call call, isvoid := req.isvoid,
         flags := req.flags, workaround := req.workaround, encoding := req.encoding,
         fails := fails 0 }] }

/-- `xcb_send_request`, while no one else writes. -/
def sendRequest (s : Session) (call : SendCall) (req : PreparedRequest) (fails : ℕ → Bool) :
    Session :=
  (s.number call req fails).writeBlock (req.vector ((s.conn.numberRequest req).2 ≠ 0))

/-! ### Handing the socket over -/

/-- `xcb_take_socket` once everything is written: the flags hold from `c->out.request` on. -/
def register (s : Session) (flags : Flags) : Session :=
  let inp := if flags ≠ 0 then
      s.conn.inp.expectReply s.conn.out.request .externalSocketOwner flags
    else s.conn.inp
  { s with
    conn := { s.conn with inp := inp, out := { s.conn.out with returnSocket := some 0 } }
    ownerFlags := flags
    handoffs := if flags ≠ 0 then s.handoffs ++ [(s.requests.length, flags)] else s.handoffs }

/-- `xcb_take_socket`, when the socket is not taken. -/
def takeSocket (s : Session) (flags : Flags) : Session :=
  (s.flushTo s.conn.out.request).register flags

/-- The owner's requests, numbered from `number` on. -/
def ownerRequests (flags : Flags) (number : BitVec 64) : List OwnerRequest → List Request
  | [] => []
  | r :: rs =>
    { number := number, source := .owner, isvoid := r.isvoid, flags := flags,
      workaround := .none, encoding := r.encoding, fails := r.fails } ::
      ownerRequests flags (number + 1) rs

/-- `c->out.request += requests` -/
def numberOwner (s : Session) (requests : List OwnerRequest) : Session :=
  { s with
    conn := { s.conn with
      out := { s.conn.out with
        request := s.conn.out.request + BitVec.ofNat 64 requests.length } }
    requests := s.requests ++ ownerRequests s.ownerFlags (s.conn.out.request + 1) requests }

/-- `xcb_writev`, for a vector that holds exactly these requests. -/
def writev (s : Session) (requests : List OwnerRequest) : Session :=
  (s.numberOwner requests).outSend [Iovec.ofMemory (requests.flatMap OwnerRequest.encoding)]

/-- `get_socket_back`, when the socket is taken. -/
def getSocketBack (s : Session) : Session :=
  { s with
    conn := { s.conn with
      inp := s.conn.inp.repliesDone s.conn.out.request
      out := { s.conn.out with returnSocket := none } } }

/-! ### The server -/

/-- Request `n` of the session. -/
def request? (s : Session) (n : ℕ) : Option Request := if n = 0 then none else s.requests[n - 1]?

/-- All bytes of the first `n` requests have been handed to the socket. -/
def handed (s : Session) (n : ℕ) : Bool :=
  n ≤ s.requests.length &&
    ((s.requests.take n).flatMap Request.encoding).length ≤ s.socket.length

/-- Is the last request that was taken answered? -/
def answered (s : Session) : Bool :=
  match s.request? s.server.handled with
  | some r => if r.fails then s.server.errored else r.isvoid || s.server.replied
  | none => true

/-- May the server send a packet of this type now? -/
def canEmit (s : Session) (p : Packet Stamp) : Bool :=
  if p.isReply then (s.request? s.server.handled).any (!·.isvoid) && !s.server.errored
  else if p.isError then (s.request? s.server.handled).any (·.fails) && !s.server.errored
  else true

/-- The server takes the next request. -/
def handle (s : Session) : Session := { s with server := ⟨s.server.handled + 1, false, false⟩ }

/-- The server sends a packet. -/
def emit (s : Session) (p : Packet Stamp) : Session :=
  { s with
    server := { s.server with
      replied := s.server.replied || p.isReply
      errored := s.server.errored || p.isError }
    wire := s.wire ++ [p] }

/-! ### Reading -/

/-- `read_packet`, on the next packet. -/
def read (s : Session) (p : Packet Stamp) (wire : List (Packet Stamp)) : Session :=
  { s with
    conn := { s.conn with inp := (s.conn.inp.readPacket p).1 }
    wire := wire
    log := s.log ++ [.read p] }

/-- `poll_for_reply`, with the 32 bits of the caller's number. -/
def poll (s : Session) (cookie : ℕ) : Session :=
  let result := s.conn.inp.pollForReply (BitVec.ofNat 32 cookie)
  { s with
    conn := { s.conn with inp := result.2 }
    log := s.log ++ [.poll cookie result.1] }

/-- `get_event` -/
def getEvent (s : Session) : Session :=
  { s with
    conn := { s.conn with inp := s.conn.inp.getEvent.2 }
    log := s.log ++ [.event s.conn.inp.getEvent.1] }

/-- `xcb_discard_reply` -/
def discard (s : Session) (request : BitVec 32) : Session :=
  { s with
    conn := { s.conn with
      inp := if request = 0 then s.conn.inp
        else s.conn.inp.discardReply s.conn.out.request request } }

/-! ### Steps -/

/-- The packet of an `emit` action. -/
def packet (s : Session) (responseType : BitVec 8) (sequence : BitVec 16) (bytes : List UInt8) :
    Packet Stamp :=
  ⟨responseType, sequence, ⟨s.server.handled, bytes⟩⟩

/-- One call, or one step of the server. Calls on a connection in error do nothing and are left
out; so are calls that would first have to get the socket back. -/
def step (s : Session) : Action → Option Session
  | .send call fails =>
    if s.conn.hasError || s.conn.out.returnSocket.isSome then none
    else match call.prepare s.conn.setupMaximumRequestLength with
      | some req => some (s.sendRequest call req fails)
      | none => some { s with conn := s.conn.shutdown }
  | .flush => if s.conn.hasError then none else some (s.flushTo s.conn.out.request)
  | .takeSocket flags =>
    if s.conn.hasError || s.conn.out.returnSocket.isSome then none else some (s.takeSocket flags)
  | .writev requests =>
    if s.conn.hasError || s.conn.out.returnSocket.isNone then none else some (s.writev requests)
  | .getSocketBack => if s.conn.out.returnSocket.isNone then none else some s.getSocketBack
  | .awaitReply cookie => if s.conn.hasError then none else some (s.awaitReply cookie)
  | .poll cookie => if s.conn.hasError then none else some (s.poll cookie)
  | .getEvent => if s.conn.hasError then none else some s.getEvent
  | .discard request => if s.conn.hasError then none else some (s.discard request)
  | .handle => if s.handed (s.server.handled + 1) && s.answered then some s.handle else none
  | .emit responseType sequence bytes =>
    let p := s.packet responseType sequence bytes
    if s.canEmit p && (p.isKeymapNotify || sequence == BitVec.ofNat 16 s.server.handled) then
      some (s.emit p)
    else none
  | .read =>
    match s.wire with
    | p :: wire => some (s.read p wire)
    | [] => none

end Session

end Xcb
