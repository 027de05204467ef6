import Xcb.Wakeup
import Xcb.Service

/-!
# Threads and a server

The two models of a connection put together: the threads of `System`, which write and read as the
socket lets them, and the server of `Session`, which takes a request when all bytes of it have
arrived. The server sees the bytes that were written, and the threads read the packets that it has
sent. So nothing here happens by whole calls.

## History

What `Session` remembers is remembered here too. The arguments of `xcb_send_request` are kept for
each thread until its request is numbered.

## Main definitions

* `XcbConnection.forget` — a connection without its threads
* `Network` — threads, the server and what is between them
* `Network.step` — one stretch of code, or one step of the server
-/

namespace Xcb

variable {τ β : Type}

/-! ### A connection without its threads -/

/-- The input half, without what it knows about threads. -/
def XcbIn.forget (c : XcbIn τ β) : XcbIn Empty β where
  reading := 0
  requestExpected := c.requestExpected
  requestRead := c.requestRead
  requestCompleted := c.requestCompleted
  currentReply := c.currentReply
  replies := c.replies
  events := c.events
  readers := []
  pendingReplies := c.pendingReplies

/-- The output half, without what it knows about threads. -/
def XcbOut.forget (o : XcbOut) : XcbOut := { o with writing := 0 }

/-- A connection, without what it knows about threads. -/
def XcbConnection.forget (c : XcbConnection τ β) : XcbConnection Empty β where
  hasError := c.hasError
  setupMaximumRequestLength := c.setupMaximumRequestLength
  inp := c.inp.forget
  out := c.out.forget

/-! Only who is signalled depends on the threads. -/

section forget

variable (c : XcbIn τ β) (p : Packet β)

theorem XcbIn.forget_advance : (c.advance p).forget = c.forget.advance p := by
  unfold XcbIn.advance XcbIn.completeError
  split
  · rfl
  · split <;> rfl

theorem XcbIn.forget_readPacket : (c.readPacket p).1.forget = (c.forget.readPacket p).1 := by
  rw [XcbIn.readPacket_fst, XcbIn.readPacket_fst, ← XcbIn.forget_advance]
  rfl

theorem XcbIn.forget_getEvent_fst : c.forget.getEvent.1 = c.getEvent.1 := by
  unfold XcbIn.getEvent
  cases hevents : c.events <;> simp [XcbIn.forget, hevents]

theorem XcbIn.forget_getEvent_snd : c.forget.getEvent.2 = c.getEvent.2.forget := by
  rw [XcbIn.getEvent_snd, XcbIn.getEvent_snd]
  rfl

theorem XcbIn.forget_pollForReply (request : BitVec 32) :
    c.forget.pollForReply request =
      ((c.pollForReply request).1, (c.pollForReply request).2.forget) := by
  have hread : c.forget.requestRead = c.requestRead := rfl
  have hcurrent : c.forget.currentReply = c.currentReply := rfl
  have hcompleted : c.forget.requestCompleted = c.requestCompleted := rfl
  have hreplies : c.forget.replies = c.replies := rfl
  unfold XcbIn.pollForReply
  rw [hread, hcurrent, hcompleted, hreplies]
  split
  · rfl
  · split
    · rcases c.replies.remove request with ⟨_ | _ | _, _⟩ <;> rfl
    · split
      · rfl
      · split <;> rfl

theorem XcbIn.forget_discardReply (outRequest : BitVec 64) (request : BitVec 32) :
    (c.discardReply outRequest request).forget = c.forget.discardReply outRequest request := by
  have hread : c.forget.requestRead = c.requestRead := rfl
  have hcurrent : c.forget.currentReply = c.currentReply := rfl
  unfold XcbIn.discardReply
  rw [hread, hcurrent]
  split
  · rfl
  · split <;> rfl

end forget

section numberRequest

variable (c : XcbConnection τ β) (req : PreparedRequest)

theorem XcbConnection.forget_syncLoop (isvoid : Bool) (fuel : ℕ) :
    c.forget.syncLoop isvoid fuel =
      ((c.syncLoop isvoid fuel).1.forget, (c.syncLoop isvoid fuel).2) := by
  induction fuel generalizing c with
  | zero => rfl
  | succ fuel ih =>
    have hneeds : c.forget.needsSync isvoid = c.needsSync isvoid := rfl
    have hinsert : c.forget.insertSync = c.insertSync.forget := rfl
    simp only [XcbConnection.syncLoop, hneeds, hinsert, ih]
    split <;> rfl

theorem XcbConnection.forget_numberRequest :
    c.forget.numberRequest req = ((c.numberRequest req).1.forget, (c.numberRequest req).2) := by
  have hnext : c.forget.nextRequest = c.nextRequest.forget := rfl
  have hexpect : ∀ d : XcbConnection τ β,
      d.forget.expectRequest req = (d.expectRequest req).forget := by
    intro d
    unfold XcbConnection.expectRequest
    split <;> rfl
  simp only [XcbConnection.numberRequest, hnext, forget_syncLoop, hexpect]

end numberRequest

theorem XcbOut.forget_writeBlock (o : XcbOut) (parts : List (List UInt8)) :
    o.forget.writeBlock parts = ((o.writeBlock parts).1.forget, (o.writeBlock parts).2) := by
  induction parts generalizing o with
  | nil => rfl
  | cons part parts ih =>
    have hlen : o.forget.queueLen = o.queueLen := rfl
    have hqueue : o.forget.queue = o.queue := rfl
    have happend : o.forget.append part = (o.append part).forget := rfl
    simp only [XcbOut.writeBlock, hlen, hqueue, happend, ih]
    split <;> rfl

/-! ### The other end -/

/-- What the threads do not see: the requests that were numbered, the server, the packets that are
on their way, and those that were read. -/
structure Outside where
  requests : List Request
  server : Server
  wire : List (Packet Stamp)
  reads : List (Packet Stamp)

/-- These packets arrive. -/
def Outside.read (o : Outside) (packets : List (Packet Stamp)) : Outside :=
  { o with wire := o.wire.drop packets.length, reads := o.reads ++ packets }

/-- These requests are numbered. -/
def Outside.number (o : Outside) (requests : List Request) : Outside :=
  { o with requests := o.requests ++ requests }

/-- The same in a session. -/
def Session.outside (s : Session) : Outside := ⟨s.requests, s.server, s.wire, s.reads⟩

/-- Several threads on a connection, and the server. -/
structure Network (τ : Type) where
  system : System τ Stamp
  /-- The arguments of each thread's last `xcb_send_request`. -/
  calls : τ → Option SendCall
  outside : Outside

/-- The request that a thread is about to number. -/
def Pc.pendingSend : Pc → Option PreparedRequest
  | .lock (.send req) | .awaitTurn req => some req
  | _ => none

/-- Is this call part of a socket handoff? -/
def System.Action.isHandoff : System.Action τ β → Bool
  | .call _ (.takeSocket _) | .call _ (.writev _ _) => true
  | _ => false

/-- Is this `xcb_discard_reply`? -/
def System.Action.isDiscard : System.Action τ β → Bool
  | .call _ (.discardReply _) => true
  | _ => false

/-- The arguments of each thread's last `xcb_send_request`, after this step. -/
def System.Action.remember [DecidableEq τ] (calls : τ → Option SendCall) :
    System.Action τ β → τ → Option SendCall
  | .call t (.send request) => Function.update calls t (some request)
  | _ => calls

/-- The packets that `_xcb_in_read` reads, with the one that it fails on. -/
def Env.packets (e : Env τ β) : List (Packet β) := e.recv.packets ++ e.recv.aborted.toList

/-- The packets that a step reads. -/
def System.received [DecidableEq τ] (s : System τ β) : System.Action τ β → List (Packet β)
  | .run t e => if (s.readsFrom t e).isSome then e.packets else []
  | _ => []

/-- The last `count` requests, of which the last one is `req`, and the others are before it. -/
def numberedBy (request : BitVec 64) (call : SendCall) (req : PreparedRequest) (fails : ℕ → Bool) :
    ℕ → List Request
  | 0 => []
  | count + 1 => Session.newRequests request count call req fails

/-- The requests that were numbered in a step from `s` to `u`. -/
def System.numbered (s u : System τ β) (calls : τ → Option SendCall) (fails : ℕ → Bool) :
    System.Action τ β → List Request
  | .run t _ =>
    match calls t, (s.threads t).pendingSend with
    | some call, some req =>
      numberedBy s.conn.out.request call req fails (u.requests.length - s.requests.length)
    | _, _ => []
  | _ => []

/-- What the threads and the server do. `fails` is what the server will find out about the request
that the thread numbers. -/
inductive Network.Action (τ : Type)
  | thread (a : System.Action τ Stamp) (fails : ℕ → Bool)
  | handle
  | emit (responseType : BitVec 8) (sequence : BitVec 16) (bytes : List UInt8)

namespace Network

/-- Nothing has happened yet. -/
def init (size : ℕ) (maximum : BitVec 16) : Network τ where
  system := System.init size maximum
  calls := fun _ => none
  outside := ⟨[], ⟨0, false, false⟩, [], []⟩

/-- The session that the server takes part in: it sees the bytes that were written. -/
def view (n : Network τ) : Session where
  conn := n.system.conn.forget
  socket := n.system.socket
  requests := n.outside.requests
  ownerFlags := 0
  handoffs := []
  server := n.outside.server
  wire := n.outside.wire
  log := n.outside.reads.map .read

variable [DecidableEq τ]

/-- A thread has gone on. -/
def advance (n : Network τ) (system : System τ Stamp) (a : System.Action τ Stamp)
    (fails : ℕ → Bool) :
    Network τ where
  system := system
  calls := a.remember n.calls
  outside :=
    (n.outside.read (n.system.received a)).number (n.system.numbered system n.calls fails a)

variable [Fintype τ]

/-- A step of a thread, which reads what the server has sent, or a step of the server. The socket
is not handed over. -/
def step (n : Network τ) : Network.Action τ → Option (Network τ)
  | .thread a fails =>
    if a.isHandoff = false ∧ n.system.received a <+: n.outside.wire then
      (n.system.step a).map fun system => n.advance system a fails
    else none
  | .handle => (n.view.step .handle).map fun s => { n with outside := s.outside }
  | .emit responseType sequence bytes =>
    (n.view.step (.emit responseType sequence bytes)).map fun s => { n with outside := s.outside }

end Network

end Xcb
