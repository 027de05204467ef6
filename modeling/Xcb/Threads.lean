import Mathlib.Data.Fintype.Defs
import Mathlib.Logic.Function.Basic
import Xcb.Internal.Transition
import Xcb.Out

/-!
# Several threads on one connection

The calls of any number of threads, interleaved. A step is a stretch of code that a thread runs
while it holds `iolock`: from where it got the lock to where it gives it up, which is at the end of
the call, in `pthread_cond_wait`, around `poll` and around the `return_socket` callback. What a
call does before it takes the lock is a step of its own, and so is a `poll` that fails, because
`_xcb_conn_shutdown` is called there without the lock.

A thread that waits on a condition variable may go on at any time: every wait is in a loop, and
`pthread_cond_wait` may return without a signal. For the threads that wait as readers it is recorded
whether a signal has reached them.

## What the environment decides

Which thread runs, what `poll`, `recv` and `writev` return, which `malloc` fails, and which of the
threads that wait on `event_cond` a signal wakes.

## Handing the socket over

`xcb_writev` is called by an owner of the socket. A call that the `return_socket` callback makes is
made by a thread of its own here, and the callback returns when no such call is under way.

## Main definitions

* `Pc` — where a thread is between two steps
* `System` — the connection and its threads
* `System.step` — one stretch of code
-/

namespace Xcb

variable {τ β : Type}

/-! ### Calls -/

/-- A public function with its arguments. `ρ` is what a request is: the arguments of
`xcb_send_request` before the lock is taken, and a prepared request after that. The vector of
`xcb_writev` completes `requests`. -/
inductive Call (ρ : Type)
  | send (request : ρ)
  | flush
  | takeSocket (flags : Flags)
  | writev (vector : List (List UInt8)) (requests : List (List UInt8))
  | waitForReply (request : BitVec 32)
  | pollForReply (request : BitVec 32)
  | discardReply (request : BitVec 32)
  | waitForEvent
  | pollForEvent

/-- Who calls `_xcb_out_flush_to`. `target` is how many requests there are at that moment. -/
inductive Flusher
  | flush (target : ℕ)
  | takeSocket (flags : Flags)
  | waitForReply (request : BitVec 32)

/-- Who calls `get_socket_back`. -/
inductive Taker
  | send (req : PreparedRequest)
  | takeSocket (flags : Flags)

/-- Who calls `_xcb_out_send`. `last` is how many requests there are once the caller has numbered
its own, if it has any. -/
inductive Sender
  | send (number : BitVec 64) (last : ℕ)
  | writev (last : ℕ)
  | flusher (f : Flusher)

/-- Who calls `_xcb_conn_wait` with nothing to write. -/
inductive Waiter
  | reply (request : BitVec 32)
  | event
  deriving DecidableEq

/-- Where a thread is while it does not hold the lock. -/
inductive Pc
  | idle
  /-- in `pthread_mutex_lock` -/
  | lock (call : Call PreparedRequest)
  /-- in `xcb_send_request`, until no one is writing -/
  | awaitTurn (req : PreparedRequest)
  /-- in `get_socket_back`, until another thread has got the socket back -/
  | awaitSocket (taker : Taker)
  /-- in the `return_socket` callback -/
  | callback (taker : Taker)
  /-- in `_xcb_conn_wait`, until no one is writing -/
  | awaitWriter (sender : Sender) (vector : List Iovec)
  /-- in `poll`, with something to write -/
  | pollOut (failed : Bool) (sender : Sender) (vector : List Iovec)
  /-- in `_xcb_out_flush_to`, until no one is writing; `n` is which request it is -/
  | awaitWritten (f : Flusher) (request : BitVec 64) (n : ℕ)
  /-- in `_xcb_conn_wait`, until there is something to read -/
  | awaitReader (waiter : Waiter)
  /-- in `poll`, with nothing to write -/
  | pollIn (failed : Bool) (waiter : Waiter)

/-- Is the thread in `xcb_writev`? -/
def Pc.isWritev : Pc → Bool
  | .lock (.writev _ _) | .awaitWriter (.writev _) _ | .pollOut _ (.writev _) _ => true
  | _ => false

/-- Is the thread inside a call that only reads, or in none? -/
def Pc.isReader : Pc → Bool
  | .idle | .awaitReader _ | .pollIn _ _ => true
  | _ => false

/-! ### The environment -/

/-- What `writev` returns: `EAGAIN`, another failure or `0`, or a number of bytes. -/
inductive WriteResult
  | again
  | failed
  | wrote (n : ℕ)
  deriving DecidableEq

/-- What `writev` can return for a vector of this many bytes. The system writes less than `2 ^ 31`
bytes at a time. -/
def WriteResult.Valid (total : ℕ) : WriteResult → Prop
  | .wrote n => 0 < n ∧ n ≤ total ∧ n < 2 ^ 31
  | _ => True

instance (total : ℕ) (w : WriteResult) : Decidable (w.Valid total) := by
  cases w <;> unfold WriteResult.Valid <;> infer_instance

/-- What comes of one `_xcb_in_read`: the packets that are complete now, the one that `read_packet`
fails on, if any, because there is no memory or the socket fails, and whether `recv` has failed or
met the end. -/
structure ReadResult (β : Type) where
  packets : List (Packet β)
  aborted : Option (Packet β)
  closed : Bool

/-- The choices of the environment in one step. -/
structure Env (τ β : Type) where
  pollin : Bool
  pollout : Bool
  recv : ReadResult β
  writev : WriteResult
  /-- Which of the calls of `malloc` in `_xcb_in_expect_reply` fail. -/
  noMemory : ℕ → Bool
  /-- The order in which signals of `event_cond` wake threads. -/
  order : List τ
  complete : ∀ t, t ∈ order

/-! Threads with numbers, in this order. -/

instance neZero_two : NeZero 2 := ⟨by decide⟩

instance neZero_three : NeZero 3 := ⟨by decide⟩

theorem mem_range_two : ∀ t : Fin 2, t ∈ [0, 1] := by decide

theorem mem_range_three : ∀ t : Fin 3, t ∈ [0, 1, 2] := by decide

/-! ### The log -/

/-- The assertions about the output queue. -/
inductive QueueAssertion
  | writeVecQueue
  | writeVecRest
  | flushToRequest
  | flushToWritten
  | takeSocket
  deriving DecidableEq

/-- Something that happened: an assertion that was checked, a request that was numbered, a
`return_socket` callback, a result that was returned. -/
inductive Entry (β : Type)
  | assertion (a : QueueAssertion) (holds : Bool)
  | numbered (writing : ℕ) (owned : Bool)
  | callback (handoff : ℕ)
  | callbackReturned (handoff : ℕ)
  | sent (cookie : BitVec 32) (last : ℕ)
  | flushed (target : ℕ) (ret : Bool)
  | took (sent : Option (BitVec 64)) (last : ℕ)
  | wrote (last : ℕ) (ret : Bool)
  | replied (request : BitVec 32) (reply : Option (Buffer β))
  | polled (request : BitVec 32) (result : Option (Option (Buffer β)))
  | discarded (request : BitVec 32)
  | event (event : Option (Buffer β))

/-- Is this the result of a call that only reads? -/
def Entry.isRead : Entry β → Bool
  | .replied _ _ | .polled _ _ | .discarded _ | .event _ => true
  | _ => false

/-- The connection, its threads, and what has happened. `requests` are the encodings of all
requests that were given a number; request `n` is entry `n - 1`. -/
structure System (τ β : Type) where
  conn : XcbConnection τ β
  threads : τ → Pc
  /-- Has a signal reached the thread since it began to wait as a reader? -/
  signalled : τ → Bool
  /-- All bytes that were written to the socket. -/
  socket : List UInt8
  requests : List (List UInt8)
  handoffs : ℕ
  log : List (Entry β)

/-- The socket is given to an owner, who is to be called back for handoff number `handoff`. -/
def XcbConnection.handOver (c : XcbConnection τ β) (handoff : ℕ) (flags : Flags) :
    XcbConnection τ β :=
  { c with
    inp := if flags ≠ 0 then c.inp.expectReply c.out.request .externalSocketOwner flags else c.inp
    out := { c.out with returnSocket := some handoff } }

/-- `_xcb_in_expect_reply` when `malloc` fails: of the entries behind the first `old`, the ones that
found no memory are missing, and the connection is shut down. -/
def XcbConnection.loseEntries (c : XcbConnection τ β) (old : ℕ) (noMemory : ℕ → Bool) :
    XcbConnection τ β :=
  let new := (c.inp.pendingReplies.drop old).zipIdx
  let kept := new.filter fun entry => !noMemory entry.2
  { c with
    hasError := c.hasError || kept.length != new.length
    inp := { c.inp with
      pendingReplies := c.inp.pendingReplies.take old ++ kept.map Prod.fst } }

namespace System

/-- A new connection. -/
def init (size : ℕ) (maximum : BitVec 16) : System τ β where
  conn := XcbConnection.init size maximum
  threads := fun _ => .idle
  signalled := fun _ => false
  socket := []
  requests := []
  handoffs := 0
  log := []

/-! ### Updates -/

def setInp (s : System τ β) (inp : XcbIn τ β) : System τ β :=
  { s with conn := { s.conn with inp := inp } }

def setOut (s : System τ β) (out : XcbOut) : System τ β :=
  { s with conn := { s.conn with out := out } }

/-- `_xcb_conn_shutdown` -/
def shutdown (s : System τ β) : System τ β := { s with conn := s.conn.shutdown }

def note (s : System τ β) (entry : Entry β) : System τ β := { s with log := s.log ++ [entry] }

/-- `assert` -/
def check (s : System τ β) (a : QueueAssertion) (p : Prop) [Decidable p] : System τ β :=
  s.note (.assertion a (decide p))

variable [DecidableEq τ]

def setPc (s : System τ β) (t : τ) (pc : Pc) : System τ β :=
  { s with threads := Function.update s.threads t pc }

@[simp] theorem threads_setPc_self (s : System τ β) (t : τ) (pc : Pc) :
    (s.setPc t pc).threads t = pc := by
  simp [setPc]

theorem threads_setPc_of_ne (s : System τ β) {t u : τ} (h : u ≠ t) (pc : Pc) :
    (s.setPc t pc).threads u = s.threads u := by
  simp [setPc, h]

/-- What all threads have after one of them has moved. -/
theorem forall_setPc {P : τ → Pc → Prop} (s : System τ β) {t : τ} {pc : Pc} (hself : P t pc)
    (hothers : ∀ v, v ≠ t → P v (s.threads v)) : ∀ v, P v ((s.setPc t pc).threads v) :=
  (Function.forall_update_iff s.threads P).mpr ⟨hself, hothers⟩

/-- A thread that is there, and did not move there, was there before. -/
theorem of_setPc {f : Pc → Bool} (s : System τ β) {t v : τ} {pc : Pc} (hpc : f pc = false)
    (hv : f ((s.setPc t pc).threads v) = true) : f (s.threads v) = true := by
  by_cases hvt : v = t
  · rw [hvt, threads_setPc_self, hpc] at hv
    cases hv
  · rwa [threads_setPc_of_ne _ hvt] at hv

/-- A call returns. -/
def leave (s : System τ β) (t : τ) (entry : Entry β) : System τ β := (s.setPc t .idle).note entry

/-! ### Reading -/

/-- Does a signal of `event_cond` wake this thread? -/
def awaitsEvent (s : System τ β) (t : τ) : Bool :=
  match s.threads t with
  | .awaitReader .event => !s.signalled t
  | _ => false

/-- `pthread_cond_signal`, on the condition variable of a reader or on `event_cond`. -/
def signal (s : System τ β) (order : List τ) : Signal τ → System τ β
  | .reader t =>
    match s.threads t with
    | .awaitReader (.reply _) => { s with signalled := Function.update s.signalled t true }
    | _ => s
  | .event =>
    match order.find? s.awaitsEvent with
    | some t => { s with signalled := Function.update s.signalled t true }
    | none => s

/-- `_xcb_in_wake_up_next_reader` -/
def wakeUpNextReader (s : System τ β) (e : Env τ β) : System τ β :=
  s.signal e.order s.conn.inp.wakeUpNextReader

/-- `read_packet`, on a complete packet. -/
def readPacket (s : System τ β) (e : Env τ β) (p : Packet β) : System τ β :=
  let result := s.conn.inp.readPacket p
  let s := s.setInp result.1
  match result.2 with
  | some condition => s.signal e.order condition
  | none => s

/-- `_xcb_in_read` -/
def inRead (s : System τ β) (e : Env τ β) : System τ β × Bool :=
  let s := e.recv.packets.foldl (fun s p => s.readPacket e p) s
  let s := match e.recv.aborted with
    | some p => (s.setInp (s.conn.inp.advance p)).shutdown
    | none => s
  if e.recv.closed then (s.shutdown, false) else (s, true)

/-- `_xcb_conn_wait`, with nothing to write, up to where it gives up the lock. -/
def waitRead (s : System τ β) (t : τ) (waiter : Waiter) : System τ β :=
  if s.conn.inp.reading ≠ 0 then
    { s.setPc t (.awaitReader waiter) with signalled := Function.update s.signalled t false }
  else
    (s.setInp { s.conn.inp with reading := s.conn.inp.reading + 1 }).setPc t (.pollIn false waiter)

/-- The end of `xcb_wait_for_reply`, when it has its answer or has given up. -/
def leaveReply (s : System τ β) (e : Env τ β) (t : τ) (request : BitVec 32)
    (reply : Option (Buffer β)) : System τ β :=
  let s := s.setInp { s.conn.inp with readers := removeReader ⟨request, t⟩ s.conn.inp.readers }
  (s.wakeUpNextReader e).leave t (.replied request reply)

/-- The loop of `xcb_wait_for_reply`. -/
def waitReply (s : System τ β) (e : Env τ β) (t : τ) (request : BitVec 32) : System τ β :=
  let result := s.conn.inp.pollForReply request
  let s := s.setInp result.2
  match result.1 with
  | some reply => s.leaveReply e t request reply
  | none => s.waitRead t (.reply request)

/-- `xcb_wait_for_reply`, when its request is written. -/
def startReply (s : System τ β) (e : Env τ β) (t : τ) (request : BitVec 32) : System τ β :=
  (s.setInp { s.conn.inp with readers := insertReader ⟨request, t⟩ s.conn.inp.readers }).waitReply
    e t request

/-- The end of `xcb_wait_for_event`. -/
def leaveEvent (s : System τ β) (e : Env τ β) (t : τ) (event : Option (Buffer β)) : System τ β :=
  (s.wakeUpNextReader e).leave t (.event event)

/-- The loop of `xcb_wait_for_event`. -/
def waitEvent (s : System τ β) (e : Env τ β) (t : τ) : System τ β :=
  let result := s.conn.inp.getEvent
  let s := s.setInp result.2
  match result.1 with
  | some event => s.leaveEvent e t (some event)
  | none => s.waitRead t .event

/-- `xcb_poll_for_event` -/
def pollEvent (s : System τ β) (e : Env τ β) (t : τ) : System τ β :=
  let result := s.conn.inp.getEvent
  let s := s.setInp result.2
  match result.1 with
  | some event => s.leave t (.event (some event))
  | none =>
    let read := s.inRead e
    if read.2 then
      let result := read.1.conn.inp.getEvent
      (read.1.setInp result.2).leave t (.event result.1)
    else read.1.leave t (.event none)

/-- What `_xcb_conn_wait` reads when `poll` has returned. -/
def pollRead (s : System τ β) (e : Env τ β) (failed : Bool) : System τ β × Bool :=
  if failed then (s, false) else if e.pollin then s.inRead e else (s, true)

/-- `--c->in.reading` -/
def endRead (s : System τ β) : System τ β :=
  s.setInp { s.conn.inp with reading := s.conn.inp.reading - 1 }

/-- What follows a call of `_xcb_conn_wait` with nothing to write. -/
def afterRead (s : System τ β) (e : Env τ β) (t : τ) (waiter : Waiter) (ret : Bool) : System τ β :=
  match waiter with
  | .reply request => if ret then s.waitReply e t request else s.leaveReply e t request none
  | .event => if ret then s.waitEvent e t else s.leaveEvent e t none

/-- `_xcb_conn_wait`, with nothing to write, from where `poll` has returned. -/
def finishRead (s : System τ β) (e : Env τ β) (t : τ) (failed : Bool) (waiter : Waiter) :
    System τ β :=
  let result := s.pollRead e failed
  (result.1.endRead.setPc t .idle).afterRead e t waiter result.2

/-! ### Writing -/

/-- `xcb_take_socket`, once everything is written. -/
def takeSocket (s : System τ β) (e : Env τ β) (flags : Flags) : System τ β :=
  let conn := (s.conn.handOver s.handoffs flags).loseEntries s.conn.inp.pendingReplies.length
    e.noMemory
  ({ s with conn := conn, handoffs := s.handoffs + 1 }).check .takeSocket
    (s.conn.out.request = s.conn.out.requestWritten)

/-- What follows a call of `_xcb_out_flush_to`. -/
def afterFlush (s : System τ β) (e : Env τ β) (t : τ) (f : Flusher) (ret : Bool) : System τ β :=
  match f with
  | .flush target => s.leave t (.flushed target ret)
  | .takeSocket flags =>
    if ret then (s.takeSocket e flags).leave t (.took (some s.conn.out.request) s.requests.length)
    else s.leave t (.took none s.requests.length)
  | .waitForReply request =>
    if ret then s.startReply e t request
    else (s.wakeUpNextReader e).leave t (.replied request none)

/-- What follows a call of `_xcb_out_send`. -/
def afterSend (s : System τ β) (e : Env τ β) (t : τ) (sender : Sender) (ret : Bool) : System τ β :=
  match sender with
  | .send number last =>
    if ret then s.leave t (.sent (low32 number) last) else s.shutdown.leave t (.sent 0 last)
  | .writev last => s.leave t (.wrote last ret)
  | .flusher f => s.afterFlush e t f ret

/-- `_xcb_conn_wait`, with something to write, up to where it gives up the lock. -/
def waitWrite (s : System τ β) (t : τ) (sender : Sender) (vector : List Iovec) : System τ β :=
  if s.conn.out.writing ≠ 0 then s.setPc t (.awaitWriter sender vector)
  else
    ((s.setInp { s.conn.inp with reading := s.conn.inp.reading + 1 }).setOut
      { s.conn.out with writing := s.conn.out.writing + 1 }).setPc t (.pollOut false sender vector)

/-- The loop of `_xcb_out_send`. -/
def outSend (s : System τ β) (e : Env τ β) (t : τ) (sender : Sender) (ret : Bool)
    (vector : List Iovec) : System τ β :=
  if ret ∧ vector ≠ [] then s.waitWrite t sender vector
  else
    ((s.setOut { s.conn.out with requestWritten := s.conn.out.request }).wakeUpNextReader
      e).afterSend e t sender ret

/-- `write_vec` -/
def writeVec (s : System τ β) (vector : List Iovec) (w : WriteResult) :
    System τ β × Bool × List Iovec :=
  let s := s.check .writeVecQueue (s.conn.out.queueLen = 0)
  match w with
  | .again => (s, true, vector)
  | .failed => (s.shutdown, false, vector)
  | .wrote n =>
    let result := Xcb.writeVec vector n
    (({ s with socket := s.socket ++ (gather s.conn.out.queue vector).take n }).check
      .writeVecRest (result.2 = 0), true, result.1)

/-- What `_xcb_conn_wait` reads and writes when `poll` has returned. -/
def pollWrite (s : System τ β) (e : Env τ β) (failed : Bool) (vector : List Iovec) :
    System τ β × Bool × List Iovec :=
  let result := s.pollRead e failed
  if e.pollout && result.2 then result.1.writeVec vector e.writev
  else (result.1, result.2, vector)

/-- `--c->out.writing` -/
def endWrite (s : System τ β) : System τ β :=
  s.setOut { s.conn.out with writing := s.conn.out.writing - 1 }

/-- `_xcb_conn_wait`, with something to write, from where `poll` has returned. -/
def finishWrite (s : System τ β) (e : Env τ β) (t : τ) (failed : Bool) (sender : Sender)
    (vector : List Iovec) : System τ β :=
  let result := s.pollWrite e failed vector
  (result.1.endWrite.endRead.setPc t .idle).outSend e t sender result.2.1 result.2.2

/-- The end of `_xcb_out_flush_to`, where another thread writes. -/
def awaitWritten (s : System τ β) (e : Env τ β) (t : τ) (f : Flusher) (request : BitVec 64)
    (n : ℕ) : System τ β :=
  if s.conn.out.writing ≠ 0 then s.setPc t (.awaitWritten f request n)
  else
    (s.check .flushToWritten
      (sequenceCompare s.conn.out.requestWritten request ≥ 0)).afterFlush e t f true

/-- `_xcb_out_flush_to` -/
def flushTo (s : System τ β) (e : Env τ β) (t : τ) (f : Flusher) (request : BitVec 64) :
    System τ β :=
  let s := s.check .flushToRequest (sequenceCompare request s.conn.out.request ≤ 0)
  if sequenceCompare s.conn.out.requestWritten request ≥ 0 then s.afterFlush e t f true
  else if s.conn.out.queueLen ≠ 0 then
    (s.setOut s.conn.out.takeQueue.1).outSend e t (.flusher f) true s.conn.out.takeQueue.2
  else s.awaitWritten e t f request (s.requests.length - (s.conn.out.request - request).toNat)

/-- From `++c->out.request` to the last update of `request_expected`. -/
def numberRequest (s : System τ β) (e : Env τ β) (req : PreparedRequest) : System τ β :=
  let result := s.conn.numberRequest req
  { s with
    conn := result.1.loseEntries s.conn.inp.pendingReplies.length e.noMemory
    requests := s.requests ++ List.replicate result.2 syncReq ++ [req.encoding] }

/-- `write_block`, and the end of `xcb_send_request`. -/
def writeBlock (s : System τ β) (e : Env τ β) (t : τ) (number : BitVec 64)
    (vector : List (List UInt8)) : System τ β :=
  let block := s.conn.out.writeBlock vector
  let s := s.setOut block.1
  if block.2 = [] then s.leave t (.sent (low32 number) s.requests.length)
  else s.outSend e t (.send number s.requests.length) true block.2

/-- `xcb_send_request`, when it is its turn. -/
def sendRequest (s : System τ β) (e : Env τ β) (t : τ) (req : PreparedRequest) : System τ β :=
  let s := s.note (.numbered s.conn.out.writing s.conn.out.returnSocket.isSome)
  let u := s.numberRequest e req
  u.writeBlock e t u.conn.out.request (req.vector ((s.conn.numberRequest req).2 ≠ 0))

/-- What follows a call of `get_socket_back`. -/
def afterSocket (s : System τ β) (e : Env τ β) (t : τ) (taker : Taker) : System τ β :=
  match taker with
  | .send req => s.sendRequest e t req
  | .takeSocket flags => s.flushTo e t (.takeSocket flags) s.conn.out.request

/-- `get_socket_back`, up to the callback. -/
def getSocketBack (s : System τ β) (e : Env τ β) (t : τ) (taker : Taker) : System τ β :=
  match s.conn.out.returnSocket with
  | none => s.afterSocket e t taker
  | some handoff =>
    if s.conn.out.socketMoving then s.setPc t (.awaitSocket taker)
    else
      ((s.setOut { s.conn.out with socketMoving := true }).note (.callback handoff)).setPc t
        (.callback taker)

/-- `get_socket_back`, what it does when the callback has returned. -/
def endCallback (s : System τ β) : System τ β :=
  let s := s.note (.callbackReturned (s.conn.out.returnSocket.getD 0))
  (s.setInp (s.conn.inp.repliesDone s.conn.out.request)).setOut
    { s.conn.out with socketMoving := false, returnSocket := none }

/-- The first loop of `xcb_send_request`. -/
def awaitTurn (s : System τ β) (e : Env τ β) (t : τ) (req : PreparedRequest) : System τ β :=
  if s.conn.out.writing ≠ 0 then s.setPc t (.awaitTurn req) else s.getSocketBack e t (.send req)

/-- `c->out.request += requests` -/
def numberOwner (s : System τ β) (requests : List (List UInt8)) : System τ β :=
  { s with
    conn := { s.conn with
      out := { s.conn.out with
        request := s.conn.out.request + BitVec.ofNat 64 requests.length } }
    requests := s.requests ++ requests }

/-- `xcb_writev` -/
def writev (s : System τ β) (e : Env τ β) (t : τ) (vector requests : List (List UInt8)) :
    System τ β :=
  let s := s.numberOwner requests
  s.outSend e t (.writev (if requests = [] then 0 else s.requests.length)) true
    (vector.map Iovec.ofMemory)

/-! ### Steps -/

/-- What a thread does when it gets the lock. -/
def start (s : System τ β) (e : Env τ β) (t : τ) (call : Call PreparedRequest) : System τ β :=
  match call with
  | .send req => s.awaitTurn e t req
  | .flush => s.flushTo e t (.flush s.requests.length) s.conn.out.request
  | .takeSocket flags => s.getSocketBack e t (.takeSocket flags)
  | .writev vector requests => s.writev e t vector requests
  | .waitForReply request =>
    if s.conn.out.returnSocket.isSome then s.startReply e t request
    else s.flushTo e t (.waitForReply request) (widenRequest s.conn.out.request request)
  | .pollForReply request =>
    let result := s.conn.inp.pollForReply request
    (s.setInp result.2).leave t (.polled request result.1)
  | .discardReply request =>
    (s.setInp (s.conn.inp.discardReply s.conn.out.request request)).leave t (.discarded request)
  | .waitForEvent => s.waitEvent e t
  | .pollForEvent => s.pollEvent e t

/-- A call on a connection in error. -/
def refuse (s : System τ β) (call : Call SendCall) : System τ β :=
  match call with
  | .send _ => s.note (.sent 0 0)
  | .flush => s.note (.flushed 0 false)
  | .takeSocket _ => s.note (.took none 0)
  | .writev _ _ => s.note (.wrote 0 false)
  | .waitForReply request => s.note (.replied request none)
  | .pollForReply request => s.note (.polled request (some none))
  | .discardReply request => s.note (.discarded request)
  | .waitForEvent | .pollForEvent => s.note (.event none)

/-- What a call does before it takes the lock, on a connection that is not in error. -/
def enter (s : System τ β) (t : τ) (call : Call SendCall) : System τ β :=
  match call with
  | .send call =>
    match call.prepare s.conn.setupMaximumRequestLength with
    | some req => s.setPc t (.lock (.send req))
    | none => s.shutdown.note (.sent 0 0)
  | .discardReply request =>
    if request = 0 then s.note (.discarded request) else s.setPc t (.lock (.discardReply request))
  | .flush => s.setPc t (.lock .flush)
  | .takeSocket flags => s.setPc t (.lock (.takeSocket flags))
  | .writev vector requests => s.setPc t (.lock (.writev vector requests))
  | .waitForReply request => s.setPc t (.lock (.waitForReply request))
  | .pollForReply request => s.setPc t (.lock (.pollForReply request))
  | .waitForEvent => s.setPc t (.lock .waitForEvent)
  | .pollForEvent => s.setPc t (.lock .pollForEvent)

/-- Only an owner of the socket may call `xcb_writev`. -/
def MayCall (s : System τ β) : Call SendCall → Prop
  | .writev _ _ => s.conn.out.returnSocket.isSome = true
  | _ => True

instance (s : System τ β) (call : Call SendCall) : Decidable (s.MayCall call) := by
  cases call <;> unfold MayCall <;> infer_instance

/-- A thread calls a function. -/
def call (s : System τ β) (t : τ) (call : Call SendCall) : Option (System τ β) :=
  match s.threads t with
  | .idle =>
    if s.MayCall call then
      if s.conn.hasError then some (s.refuse call) else some (s.enter t call)
    else none
  | _ => none

/-- A `poll` of this thread fails. -/
def pollFails (s : System τ β) (t : τ) : Option (System τ β) :=
  match s.threads t with
  | .pollOut _ sender vector => some (s.shutdown.setPc t (.pollOut true sender vector))
  | .pollIn _ waiter => some (s.shutdown.setPc t (.pollIn true waiter))
  | _ => none

variable [Fintype τ]

/-- A thread gets the lock and runs until it gives it up. It does not wait for anything while it
runs, hence `idle`. -/
def run (s : System τ β) (t : τ) (e : Env τ β) : Option (System τ β) :=
  match s.threads t with
  | .idle => none
  | .lock call => some ((s.setPc t .idle).start e t call)
  | .awaitTurn req => some ((s.setPc t .idle).awaitTurn e t req)
  | .awaitSocket taker => some ((s.setPc t .idle).getSocketBack e t taker)
  | .callback taker =>
    if ∀ u, (s.threads u).isWritev = false then
      some ((s.endCallback.setPc t .idle).afterSocket e t taker)
    else none
  | .awaitWriter sender vector => some ((s.setPc t .idle).outSend e t sender true vector)
  | .pollOut failed sender vector =>
    if e.writev.Valid (gather s.conn.out.queue vector).length then
      some (s.finishWrite e t failed sender vector)
    else none
  | .awaitWritten f request n => some ((s.setPc t .idle).awaitWritten e t f request n)
  | .awaitReader waiter => some ((s.setPc t .idle).afterRead e t waiter true)
  | .pollIn failed waiter => some (s.finishRead e t failed waiter)

/-- A step of a thread. -/
inductive Action (τ β : Type)
  | call (t : τ) (call : Call SendCall)
  | pollFails (t : τ)
  | run (t : τ) (e : Env τ β)

def step (s : System τ β) : Action τ β → Option (System τ β)
  | .call t call => s.call t call
  | .pollFails t => s.pollFails t
  | .run t e => s.run t e

end System

end Xcb
