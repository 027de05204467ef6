import Xcb.Chunks
import Xcb.Wakeup
import Xcb.Sticky

/-!
# Threads that read bytes

`System` is given whole packets, as many as one `_xcb_in_read` is said to find. `Input` takes them
from the bytes of a socket, but nobody else is there. Here both are put together: the threads of
`System` call the `_xcb_in_read` of `Input`. What comes of it is a run of `System`, and what
`System` is given is what the socket hands out, cut where the headers say.

The socket is fixed, but each step has its own memory. A packet that announces `2 ^ 31` bytes or
more is not among them: its length is not an `int`.

## Main definitions

* `Wired` — threads, and the socket they read
* `Wired.step` — a stretch of code, which may read bytes
* `Framed` — as long as the header says to the input half that reads it
* `System.stepRead` — a step of `System`, with the packets that were read

## Main results

* `Wired.inRead_cases` — one call of `_xcb_in_read` on bytes is one on packets
* `Wired.refines_of_reach` — the run on packets, and where the bytes are
-/

namespace Xcb

variable {τ β : Type}

/-! ### One packet, whatever the memory grants -/

namespace Input

variable {s t : Input τ} {memory : Memory}

/-- Reading bytes changes nothing else. -/
theorem kept_of_readBlock {len : ℤ} {result : Option (List UInt8)}
    (h : s.readBlock len = some (result, t)) : t.conn = s.conn ∧ t.delivered = s.delivered := by
  unfold readBlock at h
  split at h
  · cases h
  · dsimp only at h
    split at h
    · split at h <;> cases h <;> exact ⟨rfl, rfl⟩
    · cases h
      exact ⟨rfl, rfl⟩

theorem kept_of_readBody {length eventlength : ℤ} {size : ℕ} {result : Option (List UInt8)}
    (h : s.readBody length eventlength size = some (result, t)) :
    t.conn = s.conn ∧ t.delivered = s.delivered := by
  unfold readBody at h
  split at h
  · cases h
  · split at h
    · next first u hfirst =>
      have hu := kept_of_readBlock hfirst
      obtain ⟨⟨rest, v⟩, htail, heq⟩ := Option.map_eq_some_iff.mp h
      cases heq
      unfold readTail at htail
      split at htail
      · cases htail
        exact hu
      · split at htail
        · cases htail
        · have hv := kept_of_readBlock htail
          exact ⟨hv.1.trans hu.1, hv.2.trans hu.2⟩
    · next u hfirst =>
      cases h
      exact kept_of_readBlock hfirst
    · cases h

/-- The end of `read_packet` is that of `XcbIn.readPacket`, or there is no memory for the node. -/
theorem deliver_or_shutdown (memory : Memory) {c : XcbIn τ (List UInt8)}
    {p : Packet (List UInt8)} (hconn : s.conn = c.advance p) :
    s.deliver memory p = (true,
        { s with conn := (c.readPacket p).1, delivered := s.delivered ++ delivery c p }) ∨
      s.deliver memory p = (false, s.shutdown) := by
  rw [deliver, hconn, XcbIn.readPacket, delivery]
  cases route ((c.advance p).matchPending p) p with
  | discard =>
    left
    simp only [List.append_nil]
    rw [← hconn]
  | replyStore => cases hnode : memory.grants listNodeSize <;> simp
  | eventQueue => cases hnode : memory.grants listNodeSize <;> simp

/-- `s` has read this packet, and nothing else. -/
structure Reads (s t : Input τ) (packet : List UInt8) : Prop where
  length : packet.length = s.packetSize
  bytes : s.bytes = packet ++ t.bytes
  queue : t.queue.length < s.queue.length
  hasError : t.hasError = s.hasError
  conn : t.conn = (s.conn.readPacket (packetOf packet)).1
  delivered : t.delivered = s.delivered ++ delivery s.conn (packetOf packet)

/-- **`read_packet`** on a packet that is not too long reads it, or the connection is shut down. -/
theorem readPacket_cases (memory : Memory) (hqueue : 32 ≤ s.queue.length)
    (hsize : s.packetSize < 2 ^ 31) :
    (∃ packet t, s.readPacket memory = some (true, t) ∧ s.Reads t packet) ∨
      ∃ t, s.readPacket memory = some (false, t) ∧ t.conn = s.conn.advance s.header ∧
        t.delivered = s.delivered ∧ t.hasError = true := by
  have hfits := fits_of_lt hsize
  have hsum := hfits.sum
  have hle : 32 ≤ s.packetSize := le_packetSize
  rw [readPacket_eq hqueue]
  split
  · rcases readBody_cases { s with conn := s.conn.advance s.header } hfits.length_pos
      hfits.eventLength_nonneg hfits.length_le hfits.eventLength_le with
      ⟨packet, t, hbody, hlength, htook, -⟩ | ⟨⟨t, hbody, herror⟩, -⟩
    · have hpacket : 32 ≤ packet.length := by omega
      have hheader :
          ({ s.header with body := packet } : Packet (List UInt8)) = packetOf packet := by
        have hbytes : s.queue.take 32 = packet.take 32 := by
          have htake := congrArg (List.take 32) htook.bytes
          rwa [List.take_append_of_le_length hpacket, bytes,
            List.take_append_of_le_length hqueue] at htake
        rw [header, ← genericReply_take, hbytes, genericReply_take]
        rfl
      rw [hbody]
      dsimp only
      rw [hheader]
      have hadvance : s.conn.advance (packetOf packet) = s.conn.advance s.header := by
        rw [← hheader]
        rfl
      have hconn : t.conn = s.conn.advance (packetOf packet) := htook.conn.trans hadvance.symm
      rcases deliver_or_shutdown memory hconn with hdeliver | hdeliver
      · refine .inl ⟨packet, _, congrArg some hdeliver, by omega, htook.bytes, ?_, htook.hasError,
          rfl, congrArg (· ++ _) htook.delivered⟩
        show t.queue.length < _
        have hdrop := congrArg List.length htook.queue
        rw [List.length_drop] at hdrop
        change t.queue.length = s.queue.length - packet.length at hdrop
        omega
      · exact .inr ⟨_, congrArg some hdeliver, hconn.trans hadvance, htook.delivered, rfl⟩
    · have hkept := kept_of_readBody hbody
      rw [hbody]
      exact .inr ⟨t, rfl, hkept.1, hkept.2, herror⟩
  · exact .inr ⟨_, rfl, rfl, rfl, rfl⟩

/-- The condition variable that is signalled for what was kept. -/
def signal (t : Input τ) : Option (Signal τ) :=
  match t.delivered with
  | [(.replyStore, _)] => (signalReader t.conn.requestRead t.conn.readers).map .reader
  | [(.eventQueue, _)] => some .event
  | _ => none

theorem signal_eq {c : XcbIn τ (List UInt8)} {p : Packet (List UInt8)}
    (hconn : t.conn = (c.readPacket p).1) (hdelivered : t.delivered = delivery c p) :
    t.signal = (c.readPacket p).2 := by
  rw [signal, hdelivered, hconn, delivery, XcbIn.readPacket]
  cases route ((c.advance p).matchPending p) p <;> rfl

/-- The loop meets no packet that is too long. -/
def Modest (memory : Memory) : ℕ → Input τ → Prop
  | 0, _ => True
  | fuel + 1, s => 32 ≤ s.queue.length → s.packetSize < 2 ^ 31 ∧
      ∀ t, s.readPacket memory = some (true, t) → Modest memory fuel { t with delivered := [] }

/-- Only one packet is read next. -/
theorem modest_succ_iff {fuel : ℕ} : s.Modest memory (fuel + 1) ↔
    (32 ≤ s.queue.length → s.packetSize < 2 ^ 31 ∧
      match s.readPacket memory with
      | some (true, t) => Modest memory fuel { t with delivered := [] }
      | _ => True) := by
  rw [Modest]
  refine imp_congr_right fun _ => and_congr_right fun _ => ?_
  constructor
  · intro h
    split
    · next t hread => exact h t hread
    · trivial
  · intro h t hread
    rw [hread] at h
    exact h

instance decidableModest (memory : Memory) : ∀ (fuel : ℕ) (s : Input τ),
    Decidable (s.Modest memory fuel)
  | 0, _ => .isTrue trivial
  | fuel + 1, s =>
    have : Decidable (match s.readPacket memory with
        | some (true, t) => Modest memory fuel { t with delivered := [] }
        | _ => True) :=
      match s.readPacket memory with
      | some (true, t) => decidableModest memory fuel { t with delivered := [] }
      | some (false, _) | none => .isTrue trivial
    decidable_of_iff _ modest_succ_iff.symm

end Input

/-- `recv` moves bytes to the queue. -/
theorem received_recv {len : ℕ} {arrivals : List Arrival} (h : (recv len arrivals).1 ≠ .ended)
    (queue : List UInt8) : Input.received queue (recv len arrivals).1 ++
      streamOf (recv len arrivals).2 = queue ++ streamOf arrivals := by
  rcases arrivals with _ | ⟨_ | _, arrivals⟩
  · exact absurd rfl h
  · next piece =>
    have hstream : streamOf (.ready piece :: arrivals) = piece ++ streamOf arrivals := rfl
    simp only [recv] at h ⊢
    split
    · next hlen => exact absurd (by rw [if_pos hlen]) h
    · split
      · next hpiece =>
        rw [hstream, hpiece, List.nil_append]
        rfl
      · split
        · rw [hstream, ← List.append_assoc]
          rfl
        · rw [hstream, streamOf_leftover]
          show (queue ++ piece.take len) ++ _ = _
          rw [List.append_assoc, ← List.append_assoc (piece.take len), List.take_append_drop]
  · exact absurd rfl h

/-! ### The threads -/

/-- Several threads on a connection, and the socket they read. The packets that were read are
remembered, each with the input half that `read_packet` began with. -/
structure Wired (τ : Type) where
  system : System τ (List UInt8)
  queue : List UInt8
  arrivals : List Arrival
  frames : List (XcbIn τ (List UInt8) × List UInt8)

namespace Wired

/-- A new connection. -/
def init (size : ℕ) (maximum : BitVec 16) (arrivals : List Arrival) : Wired τ where
  system := System.init size maximum
  queue := []
  arrivals := arrivals
  frames := []

/-- The connection for the functions that read bytes. -/
def input (w : Wired τ) : Input τ where
  conn := w.system.conn.inp
  hasError := w.system.conn.hasError
  queue := w.queue
  arrivals := w.arrivals
  delivered := []

/-- The connection after one of them. -/
def setInput (w : Wired τ) (t : Input τ) : Wired τ where
  system := { w.system with
    conn := { w.system.conn with hasError := t.hasError, inp := t.conn } }
  queue := t.queue
  arrivals := t.arrivals
  frames := w.frames

/-- What was read. -/
def keep (w : Wired τ) (frame : XcbIn τ (List UInt8) × List UInt8) : Wired τ :=
  { w with frames := w.frames ++ [frame] }

variable [DecidableEq τ]

/-- `pthread_cond_signal`, if it is called. -/
def signal (w : Wired τ) (order : List τ) : Option (Signal τ) → Wired τ
  | some condition => { w with system := w.system.signal order condition }
  | none => w

/-- `read_packet`, with its return value. -/
def readPacket (memory : Memory) (e : Env τ (List UInt8)) (w : Wired τ) :
    Option (Bool × Wired τ) :=
  match w.input.readPacket memory with
  | some (true, t) => some (true, ((w.setInput t).signal e.order t.signal).keep
      (w.system.conn.inp, w.input.bytes.take (w.input.bytes.length - t.bytes.length)))
  | some (false, t) => some (false, w.setInput t)
  | none => none

/-- `while (read_packet(c))`, for at most `fuel` packets. -/
def readPackets (memory : Memory) (e : Env τ (List UInt8)) : ℕ → Wired τ → Option (Wired τ)
  | 0, w => some w
  | fuel + 1, w =>
    match w.readPacket memory e with
    | some (true, w) => readPackets memory e fuel w
    | some (false, w) => some w
    | none => none

/-- What `recv` has returned is in the queue. -/
def receive (w : Wired τ) : Wired τ :=
  let (result, arrivals) := recv (Input.queueSize - w.queue.length) w.arrivals
  { w with queue := Input.received w.queue result, arrivals := arrivals }

/-- `_xcb_in_read` -/
def inRead (memory : Memory) (e : Env τ (List UInt8)) (w : Wired τ) : Option (Wired τ × Bool) :=
  (w.receive.readPackets memory e (w.receive.queue.length + 1)).map fun v =>
    if (recv (Input.queueSize - w.queue.length) w.arrivals).1 = .ended then
      ({ v with system := v.system.shutdown }, false)
    else (v, true)

/-! The functions that call it, and those that call them. -/

/-- `xcb_poll_for_event` -/
def pollEvent (memory : Memory) (w : Wired τ) (e : Env τ (List UInt8)) (t : τ) :
    Option (Wired τ) :=
  let result := w.system.conn.inp.getEvent
  let w := { w with system := w.system.setInp result.2 }
  match result.1 with
  | some event => some { w with system := w.system.leave t (.event (some event)) }
  | none => (w.inRead memory e).map fun (w, ret) =>
    if ret then
      let result := w.system.conn.inp.getEvent
      { w with system := (w.system.setInp result.2).leave t (.event result.1) }
    else { w with system := w.system.leave t (.event none) }

/-- What `_xcb_conn_wait` reads when `poll` has returned. -/
def pollRead (memory : Memory) (w : Wired τ) (e : Env τ (List UInt8)) (failed : Bool) :
    Option (Wired τ × Bool) :=
  if failed then some (w, false) else if e.pollin then w.inRead memory e else some (w, true)

/-- `_xcb_conn_wait`, with nothing to write, from where `poll` has returned. -/
def finishRead (memory : Memory) (w : Wired τ) (e : Env τ (List UInt8)) (t : τ) (failed : Bool)
    (waiter : Waiter) : Option (Wired τ) :=
  (w.pollRead memory e failed).map fun (w, ret) =>
    { w with system := (w.system.endRead.setPc t .idle).afterRead e t waiter ret }

/-- `_xcb_conn_wait`, with something to write, from where `poll` has returned. -/
def finishWrite (memory : Memory) (w : Wired τ) (e : Env τ (List UInt8)) (t : τ) (failed : Bool)
    (sender : Sender) (vector : List Iovec) : Option (Wired τ) :=
  (w.pollRead memory e failed).map fun (w, ret) =>
    let result := if e.pollout && ret then w.system.writeVec vector e.writev
      else (w.system, ret, vector)
    { w with
      system := (result.1.endWrite.endRead.setPc t .idle).outSend e t sender result.2.1 result.2.2 }

variable [Fintype τ]

/-- A thread gets the lock and runs until it gives it up. -/
def run (memory : Memory) (w : Wired τ) (t : τ) (e : Env τ (List UInt8)) : Option (Wired τ) :=
  match w.system.threads t with
  | .lock .pollForEvent => pollEvent memory { w with system := w.system.setPc t .idle } e t
  | .pollOut failed sender vector =>
    if e.writev.Valid (gather w.system.conn.out.queue vector).length then
      w.finishWrite memory e t failed sender vector
    else none
  | .pollIn failed waiter => w.finishRead memory e t failed waiter
  | _ => (w.system.run t e).map fun system => { w with system := system }

/-- A step of a thread. What it reads is up to the socket, and what `malloc` grants to the
memory. -/
def step (w : Wired τ) : Memory × System.Action τ (List UInt8) → Option (Wired τ)
  | (memory, .run t e) => w.run memory t e
  | (_, a) => (w.system.step a).map fun system => { w with system := system }

end Wired

/-! ### Packets again -/

/-- The packets, one after the other, each with the input half that `read_packet` begins with. -/
def XcbIn.meets (c : XcbIn τ β) : List (Packet β) → List (XcbIn τ β × Packet β)
  | [] => []
  | p :: packets => (c, p) :: (c.readPacket p).1.meets packets

namespace System

variable [DecidableEq τ]

/-- The loop of `_xcb_in_read`, on packets. -/
def readAll (s : System τ β) (e : Env τ β) (packets : List (Packet β))
    (aborted : Option (Packet β)) : System τ β :=
  let s := packets.foldl (fun s p => s.readPacket e p) s
  match aborted with
  | some p => (s.setInp (s.conn.inp.advance p)).shutdown
  | none => s

/-- The packets that a step reads and does not fail on, each with what it meets. -/
def taken (s : System τ β) : Action τ β → List (XcbIn τ β × Packet β)
  | .run t e =>
    match s.readsFrom t e with
    | some u => u.conn.inp.meets e.recv.packets
    | none => []
  | _ => []

/-- The thread may go on only if the read has not failed. -/
theorem hasError_of_failed (s : System τ β) {e : Env τ β}
    (h : e.recv.aborted.isSome = true ∨ e.recv.closed = true) :
    (s.inRead e).1.conn.hasError = true := by
  by_cases hclosed : e.recv.closed = true
  · exact hasError_inRead s (by rw [inRead_snd, hclosed]; rfl)
  · obtain ⟨p, hp⟩ := Option.isSome_iff_exists.mp (h.resolve_right hclosed)
    rw [Bool.not_eq_true] at hclosed
    rw [inRead, hp, hclosed]
    rfl

/-- `xcb_poll_for_event`, when there is no event yet. -/
theorem pollEvent_of_isEmpty {s : System τ β} {e : Env τ β} {t : τ}
    (h : s.conn.inp.events.isEmpty = true) : s.pollEvent e t =
      if (s.inRead e).2 then ((s.inRead e).1.setInp (s.inRead e).1.conn.inp.getEvent.2).leave t
        (.event (s.inRead e).1.conn.inp.getEvent.1)
      else (s.inRead e).1.leave t (.event none) := by
  have hevents : s.conn.inp.events = [] := List.isEmpty_iff.mp h
  have hnone : s.conn.inp.getEvent = (none, s.conn.inp) := by
    rw [XcbIn.getEvent, hevents]
  rw [pollEvent, hnone]
  rfl

variable [Fintype τ]

/-- What fails stays failed to the end of the step. -/
theorem hasError_run {s u v : System τ β} {e : Env τ β} {t : τ} (hs : s.Bounded)
    (hrun : s.run t e = some v) (hreads : s.readsFrom t e = some u)
    (h : e.recv.aborted.isSome = true ∨ e.recv.closed = true) : v.conn.hasError = true := by
  have herror := u.hasError_of_failed h
  have hlast := hs t
  unfold readsFrom at hreads
  unfold run at hrun
  split at hreads
  · -- a thread that waits
    next failed waiter hpc =>
    rw [hpc] at hrun
    cases hrun
    split at hreads <;> cases hreads
    next hcond =>
    obtain ⟨rfl, hin⟩ := hcond
    have hserves :=
      serves_afterRead (((s.inRead e).1.endRead).setPc t .idle) e t waiter (s.inRead e).2
    rw [finishRead, pollRead, if_neg Bool.false_ne_true, if_pos hin]
    exact hserves.hasError herror
  · -- a thread that writes
    next failed sender vector hpc =>
    rw [hpc] at hrun hlast
    dsimp only at hrun
    split at hreads <;> cases hreads
    next hcond =>
    obtain ⟨rfl, hin⟩ := hcond
    split at hrun <;> cases hrun
    have hpoll : s.pollRead e false = s.inRead e := by
      rw [pollRead, if_neg Bool.false_ne_true, if_pos hin]
    have hwrite : Follows False (s.inRead e).1 (s.pollWrite e false vector).1 := by
      unfold pollWrite
      dsimp only
      rw [hpoll]
      split
      · exact follows_writeVec _ vector fun h => h.elim
      · exact .refl _
    have hsender : sender.last ≤
        ((s.pollWrite e false vector).1.endWrite.endRead.setPc t .idle).requests.length := by
      refine le_trans ?_ hwrite.requests
      rw [(reads_inRead s e).requests]
      exact hlast
    have hsend : Follows False _ (s.finishWrite e t false sender vector) :=
      follows_outSend hsender _ _
    exact hsend.error (hwrite.error herror)
  · -- a thread that polls for an event
    next hpc =>
    rw [hpc] at hrun
    cases hrun
    split at hreads <;> cases hreads
    next hevents =>
    have hidle : (s.setPc t .idle).conn.inp.events.isEmpty = true := hevents
    rw [start, pollEvent_of_isEmpty hidle]
    split <;> exact herror
  · cases hreads

/-- A step, with the packets that were read so far. -/
def stepRead (s : System τ β × List (XcbIn τ β × Packet β)) (a : Action τ β) :
    Option (System τ β × List (XcbIn τ β × Packet β)) :=
  (s.1.step a).map fun u => (u, s.2 ++ s.1.taken a)

end System

/-- As long as its header says to the input half that reads it. -/
def Framed (frame : XcbIn τ (List UInt8) × List UInt8) : Prop :=
  frame.2.length = announced frame.1 frame.2

/-- The same packet for `XcbIn`. -/
def onPackets (frame : XcbIn τ (List UInt8) × List UInt8) :
    XcbIn τ (List UInt8) × Packet (List UInt8) :=
  (frame.1, packetOf frame.2)

namespace Wired

variable {w v : Wired τ} {memory : Memory} {e : Env τ (List UInt8)} {t : τ}

/-- All bytes that were not looked at. -/
def bytes (w : Wired τ) : List UInt8 := w.queue ++ streamOf w.arrivals

/-- The bytes of the packets that were read. -/
def packets (w : Wired τ) : List (List UInt8) := w.frames.map Prod.snd

/-- From `w` to `v` these packets were read. If the loop has not failed, then nothing was lost, and
too little is left for another one. -/
structure Read (w v : Wired τ) (frames : List (XcbIn τ (List UInt8) × List UInt8))
    (failed : Prop) : Prop where
  kept : v.frames = w.frames ++ frames
  framed : ∀ frame ∈ frames, Framed frame
  exact : ¬ failed → w.bytes = (frames.map Prod.snd).flatten ++ v.bytes
  queue : ¬ failed → v.queue.length < 32

/-- One more packet, before the others. -/
theorem Read.cons {u : Wired τ} {frame : XcbIn τ (List UInt8) × List UInt8}
    {frames : List (XcbIn τ (List UInt8) × List UInt8)} {failed : Prop}
    (hkept : u.frames = w.frames ++ [frame]) (hframed : Framed frame)
    (hbytes : w.bytes = frame.2 ++ u.bytes) (h : u.Read v frames failed) :
    w.Read v (frame :: frames) failed where
  kept := by rw [h.kept, hkept, List.append_assoc, List.singleton_append]
  framed := by
    intro other hother
    rcases List.mem_cons.mp hother with rfl | hmem
    · exact hframed
    · exact h.framed other hmem
  exact hgood := by
    rw [hbytes, h.exact hgood, List.map_cons, List.flatten_cons, List.append_assoc]
  queue := h.queue

theorem Input.Reads.framed {s t : Input τ} {packet : List UInt8} (h : s.Reads t packet)
    (hqueue : 32 ≤ s.queue.length) : Framed (s.conn, packet) := by
  have hpacket : 32 ≤ packet.length := by
    rw [h.length]
    exact le_packetSize
  obtain ⟨-, hsize⟩ := Input.header_of_bytes hqueue hpacket h.bytes
  exact h.length.trans hsize

theorem input_conn (w : Wired τ) : w.input.conn = w.system.conn.inp := rfl

variable [DecidableEq τ]

/-- The signal changes the threads only. -/
theorem input_signal (w : Wired τ) (order : List τ) (condition : Option (Signal τ)) :
    (w.signal order condition).input = w.input := by
  cases condition with
  | none => rfl
  | some condition =>
    have hconn : (w.system.signal order condition).conn = w.system.conn :=
      System.conn_signal _ _ _
    simp only [signal, input, hconn]

theorem frames_signal (w : Wired τ) (order : List τ) (condition : Option (Signal τ)) :
    (w.signal order condition).frames = w.frames := by
  cases condition <;> rfl

/-- `read_packet` on bytes, when it reads one, is `read_packet` on that packet. -/
theorem system_signal {packet : List UInt8} {t : Input τ} (h : w.input.Reads t packet) :
    ((w.setInput t).signal e.order t.signal).system = w.system.readPacket e (packetOf packet) := by
  have hsignal := Input.signal_eq h.conn h.delivered
  have hset : (w.setInput t).system =
      w.system.setInp (w.system.conn.inp.readPacket (packetOf packet)).1 := by
    have herror : t.hasError = w.system.conn.hasError := h.hasError
    have hconn : t.conn = (w.system.conn.inp.readPacket (packetOf packet)).1 := h.conn
    rw [setInput, herror, hconn]
    rfl
  rw [hsignal, System.readPacket]
  dsimp only [input]
  cases (w.system.conn.inp.readPacket (packetOf packet)).2 with
  | none => exact hset
  | some condition => exact congrArg (·.signal e.order condition) hset

/-- **The loop** does what it does on packets. -/
theorem readPackets_cases (fuel : ℕ) (w : Wired τ) (hfuel : w.queue.length < fuel)
    (hmodest : w.input.Modest memory fuel) : ∃ v packets frames aborted,
      w.readPackets memory e fuel = some v ∧ v.system = w.system.readAll e packets aborted ∧
        w.system.conn.inp.meets packets = frames.map onPackets ∧
          w.Read v frames (aborted.isSome = true) := by
  induction fuel generalizing w with
  | zero => omega
  | succ fuel ih =>
    rw [readPackets]
    by_cases hqueue : 32 ≤ w.queue.length
    · obtain ⟨hsize, hnext⟩ := hmodest hqueue
      rcases Input.readPacket_cases (s := w.input) memory hqueue hsize with
        ⟨packet, t, hread, hreads⟩ | ⟨t, hread, hconn, hdelivered, herror⟩
      · -- the next packet
        have hbytes : w.input.bytes = packet ++ t.bytes := hreads.bytes
        have htake : w.input.bytes.take (w.input.bytes.length - t.bytes.length) = packet := by
          rw [hbytes, List.length_append, Nat.add_sub_cancel, List.take_left]
        have hread' : w.readPacket memory e =
            some (true, ((w.setInput t).signal e.order t.signal).keep
              (w.system.conn.inp, packet)) := by
          rw [readPacket, hread]
          dsimp only
          rw [htake]
        have hframed : Framed (w.system.conn.inp, packet) := by
          rw [← input_conn]
          exact Input.Reads.framed hreads hqueue
        have hinput := input_signal (w.setInput t) e.order t.signal
        set u := ((w.setInput t).signal e.order t.signal).keep (w.system.conn.inp, packet) with hu
        have hqueue' : u.queue = t.queue := congrArg Input.queue hinput
        have harrivals : u.arrivals = t.arrivals := congrArg Input.arrivals hinput
        have hinp : u.system.conn.inp = (w.system.conn.inp.readPacket (packetOf packet)).1 :=
          (congrArg Input.conn hinput).trans hreads.conn
        have hmodest' : u.input.Modest memory fuel := by
          have heq : u.input = { t with delivered := [] } := hinput
          rw [heq]
          exact hnext t hread
        obtain ⟨v, packets, frames, aborted, hloop, hsystem, hmeets, hrest⟩ := ih u (by
          have hless : t.queue.length < w.queue.length := hreads.queue
          rw [hqueue']
          omega) hmodest'
        refine ⟨v, packetOf packet :: packets, (w.system.conn.inp, packet) :: frames, aborted, ?_,
          ?_, ?_, hrest.cons ?_ hframed ?_⟩
        · rw [hread']
          exact hloop
        · rw [hsystem, show u.system = _ from system_signal hreads]
          rfl
        · rw [XcbIn.meets, ← hinp, hmeets]
          rfl
        · rw [hu, keep, frames_signal]
          rfl
        · rw [bytes, bytes, hqueue', harrivals]
          exact hbytes
      · -- it fails
        refine ⟨w.setInput t, [], [], some w.input.header, ?_, ?_, rfl, ?_⟩
        · rw [readPacket, hread]
        · rw [setInput, hconn, herror]
          rfl
        · exact ⟨(List.append_nil _).symm, fun _ h => (List.not_mem_nil h).elim,
            fun h => absurd rfl h, fun h => absurd rfl h⟩
    · -- there is too little for a header
      have hshort : w.input.queue.length < 32 := not_le.mp hqueue
      have hread : w.readPacket memory e = some (false, w) := by
        rw [readPacket, Input.readPacket, if_pos hshort]
        rfl
      refine ⟨w, [], [], none, ?_, rfl, rfl, (List.append_nil _).symm,
        fun _ h => (List.not_mem_nil h).elim, fun _ => rfl, fun _ => not_le.mp hqueue⟩
      rw [hread]

/-- **`_xcb_in_read`** on bytes is `_xcb_in_read` on packets. -/
theorem inRead_cases (memory : Memory) (e : Env τ (List UInt8)) (w : Wired τ)
    (hmodest : w.receive.input.Modest memory (w.receive.queue.length + 1)) :
    ∃ v frames recv, w.inRead memory e = some (v, !recv.closed) ∧
      w.system.conn.inp.meets recv.packets = frames.map onPackets ∧
        w.system.inRead { e with recv := recv } = (v.system, !recv.closed) ∧
          w.Read v frames (recv.aborted.isSome = true ∨ recv.closed = true) := by
  obtain ⟨v, packets, frames, aborted, hloop, hsystem, hmeets, hread⟩ :=
    readPackets_cases (e := e) _ w.receive (Nat.lt_succ_self _) hmodest
  by_cases hended : (recv (Input.queueSize - w.queue.length) w.arrivals).1 = .ended
  · refine ⟨{ v with system := v.system.shutdown }, frames, ⟨packets, aborted, true⟩, ?_, hmeets,
      ?_, hread.kept, hread.framed, fun h => absurd (.inr rfl) h, fun h => absurd (.inr rfl) h⟩
    · rw [inRead, hloop, Option.map_some, if_pos hended]
      rfl
    · rw [hsystem]
      rfl
  · refine ⟨v, frames, ⟨packets, aborted, false⟩, ?_, hmeets, ?_, hread.kept, hread.framed,
      fun h => ?_, fun h => hread.queue fun haborted => h (.inl haborted)⟩
    · rw [inRead, hloop, Option.map_some, if_neg hended]
      rfl
    · rw [hsystem]
      rfl
    · rw [← hread.exact fun haborted => h (.inl haborted)]
      exact (received_recv hended w.queue).symm

/-! ### Steps -/

/-- A thread that reads in this step meets no packet that is too long. -/
def Modest (w : Wired τ) : Memory × System.Action τ (List UInt8) → Prop
  | (memory, .run t e) => (w.system.readsFrom t e).isSome = true →
      w.receive.input.Modest memory (w.receive.queue.length + 1)
  | _ => True

/-- From `w` to `v` these packets were read, and nothing is lost as long as the connection has not
failed. -/
structure Advances (w v : Wired τ) (frames : List (XcbIn τ (List UInt8) × List UInt8)) : Prop where
  kept : v.frames = w.frames ++ frames
  framed : ∀ frame ∈ frames, Framed frame
  exact : v.system.conn.hasError = false →
    w.bytes = (frames.map Prod.snd).flatten ++ v.bytes
  queue : v.system.conn.hasError = false → w.queue.length < 32 → v.queue.length < 32

omit [DecidableEq τ] in
/-- A step that reads nothing. -/
theorem Advances.of_system (w : Wired τ) (system : System τ (List UInt8)) :
    w.Advances { w with system := system } [] :=
  ⟨(List.append_nil _).symm, fun _ h => (List.not_mem_nil h).elim, fun _ => rfl, fun _ h => h⟩

variable [Fintype τ]

/-- What a step of a thread is on packets. -/
def Matches (w v : Wired τ) (t : τ) (e : Env τ (List UInt8)) : Prop :=
  ∃ recv frames, w.system.run t { e with recv := recv } = some v.system ∧
    w.system.taken (.run t { e with recv := recv }) = frames.map onPackets ∧ w.Advances v frames

/-- A step that does not read. -/
theorem matches_of_quiet (hreads : w.system.readsFrom t e = none)
    {system : System τ (List UInt8)} (hrun : w.system.run t e = some system) :
    w.Matches { w with system := system } t e := by
  refine ⟨e.recv, [], hrun, ?_, .of_system w system⟩
  rw [System.taken, hreads]
  rfl

/-- A step that reads: what comes after `_xcb_in_read` is the same. -/
theorem matches_of_read (hs : w.system.Bounded) {s : System τ (List UInt8)}
    (hreads : w.system.readsFrom t e = some s)
    (hmodest : w.receive.input.Modest memory (w.receive.queue.length + 1))
    (hinput : s.conn = w.system.conn)
    (hrun : ∀ u ret recv, ({ w with system := s } : Wired τ).inRead memory e = some (u, ret) →
      s.inRead { e with recv := recv } = (u.system, ret) →
        w.system.run t { e with recv := recv } = some v.system ∧
          v = { u with system := v.system }) : w.Matches v t e := by
  have hreceive : ({ w with system := s } : Wired τ).receive.input = w.receive.input := by
    rw [input, input, receive, receive, hinput]
  obtain ⟨u, frames, recv, hread, hmeets, hsystem, hmoves⟩ :=
    inRead_cases memory e { w with system := s } (by rw [hreceive]; exact hmodest)
  obtain ⟨hstep, hv⟩ := hrun u _ recv hread hsystem
  have hreads' : w.system.readsFrom t { e with recv := recv } = some s := hreads
  have hgood : v.system.conn.hasError = false →
      ¬ (recv.aborted.isSome = true ∨ recv.closed = true) := fun halive hfailed => by
    have herror := System.hasError_run hs hstep hreads' hfailed
    rw [halive] at herror
    cases herror
  refine ⟨recv, frames, hstep, ?_, ?_⟩
  · rw [System.taken, hreads']
    exact hmeets
  · rw [hv] at hgood ⊢
    exact ⟨hmoves.kept, hmoves.framed, fun halive => hmoves.exact (hgood halive),
      fun halive _ => hmoves.queue (hgood halive)⟩

omit [Fintype τ] in
/-- `xcb_poll_for_event`, when there is no event yet. -/
theorem pollEvent_of_isEmpty (memory : Memory) (w : Wired τ)
    (h : w.system.conn.inp.events.isEmpty = true) :
    w.pollEvent memory e t = (w.inRead memory e).map fun (w, ret) =>
      if ret then
        { w with
          system := (w.system.setInp w.system.conn.inp.getEvent.2).leave t
            (.event w.system.conn.inp.getEvent.1) }
      else { w with system := w.system.leave t (.event none) } := by
  have hevents : w.system.conn.inp.events = [] := List.isEmpty_iff.mp h
  have hnone : w.system.conn.inp.getEvent = (none, w.system.conn.inp) := by
    rw [XcbIn.getEvent, hevents]
  rw [pollEvent, hnone]
  rfl

omit [Fintype τ] in
/-- `_xcb_conn_wait`, when there is nothing to read or `poll` has failed. -/
theorem pollRead_of_quiet (memory : Memory) (w : Wired τ) {failed : Bool}
    (h : ¬ (failed = false ∧ e.pollin = true)) :
    w.pollRead memory e failed = some (w, (w.system.pollRead e failed).2) ∧
      (w.system.pollRead e failed).1 = w.system := by
  unfold pollRead System.pollRead
  cases failed with
  | true => exact ⟨rfl, rfl⟩
  | false =>
    have hin : ¬ e.pollin = true := fun hin => h ⟨rfl, hin⟩
    simp [hin]

/-- **A stretch of code** on bytes is that stretch on packets. -/
theorem matches_run (hs : w.system.Bounded) (hok : w.Modest (memory, .run t e))
    (hrun : w.run memory t e = some v) : w.Matches v t e := by
  unfold run at hrun
  split at hrun
  · -- a thread that polls for an event
    next hpc =>
    by_cases hevents : w.system.conn.inp.events.isEmpty = true
    · have hreads : w.system.readsFrom t e = some (w.system.setPc t .idle) := by
        rw [System.readsFrom, hpc]
        exact if_pos hevents
      have hidle : (w.system.setPc t .idle).conn.inp.events.isEmpty = true := hevents
      rw [pollEvent_of_isEmpty memory { w with system := w.system.setPc t .idle } hidle] at hrun
      refine matches_of_read hs hreads (hok (by rw [hreads]; rfl)) rfl ?_
      intro u ret recv hread hsystem
      rw [hread] at hrun
      rw [System.run, hpc]
      dsimp only
      rw [System.start, System.pollEvent_of_isEmpty hidle, hsystem]
      cases ret <;> cases hrun <;> exact ⟨rfl, rfl⟩
    · obtain ⟨event, events, hcons⟩ : ∃ event events, w.system.conn.inp.events = event :: events :=
        List.exists_cons_of_ne_nil fun h => hevents (List.isEmpty_iff.mpr h)
      have hreads : w.system.readsFrom t e = none := by
        rw [System.readsFrom, hpc]
        exact if_neg hevents
      have hsome : (w.system.setPc t .idle).conn.inp.getEvent =
          (some event, { w.system.conn.inp with events := events }) := by
        show w.system.conn.inp.getEvent = _
        rw [XcbIn.getEvent, hcons]
      rw [pollEvent, hsome] at hrun
      cases hrun
      refine matches_of_quiet hreads ?_
      rw [System.run, hpc]
      dsimp only
      rw [System.start, System.pollEvent, hsome]
  · -- a thread that writes
    next failed sender vector hpc =>
    split at hrun
    · next hvalid =>
      have hsystem : ∀ recv, w.system.run t { e with recv := recv } =
          some (w.system.finishWrite { e with recv := recv } t failed sender vector) := by
        intro recv
        rw [System.run, hpc]
        exact if_pos hvalid
      rw [finishWrite] at hrun
      by_cases hin : failed = false ∧ e.pollin = true
      · obtain ⟨rfl, hin⟩ := hin
        have hreads : w.system.readsFrom t e = some w.system := by
          rw [System.readsFrom, hpc]
          exact if_pos ⟨rfl, hin⟩
        refine matches_of_read hs hreads (hok (by rw [hreads]; rfl)) rfl ?_
        intro u ret recv hread hinRead
        rw [pollRead, if_neg Bool.false_ne_true, if_pos hin, hread] at hrun
        cases hrun
        rw [hsystem, System.finishWrite, System.pollWrite, System.pollRead,
          if_neg Bool.false_ne_true, if_pos hin, hinRead]
        exact ⟨rfl, rfl⟩
      · have hreads : w.system.readsFrom t e = none := by
          rw [System.readsFrom, hpc]
          exact if_neg hin
        obtain ⟨hread, hsame⟩ := pollRead_of_quiet memory w hin
        rw [hread] at hrun
        cases hrun
        refine matches_of_quiet hreads ((hsystem e.recv).trans ?_)
        rw [System.finishWrite, System.pollWrite]
        dsimp only
        rw [hsame]
    · cases hrun
  · -- a thread that waits
    next failed waiter hpc =>
    have hsystem : ∀ recv, w.system.run t { e with recv := recv } =
        some (w.system.finishRead { e with recv := recv } t failed waiter) := by
      intro recv
      rw [System.run, hpc]
    rw [finishRead] at hrun
    by_cases hin : failed = false ∧ e.pollin = true
    · obtain ⟨rfl, hin⟩ := hin
      have hreads : w.system.readsFrom t e = some w.system := by
        rw [System.readsFrom, hpc]
        exact if_pos ⟨rfl, hin⟩
      refine matches_of_read hs hreads (hok (by rw [hreads]; rfl)) rfl ?_
      intro u ret recv hread hinRead
      rw [pollRead, if_neg Bool.false_ne_true, if_pos hin, hread] at hrun
      cases hrun
      rw [hsystem, System.finishRead, System.pollRead, if_neg Bool.false_ne_true, if_pos hin,
        hinRead]
      exact ⟨rfl, rfl⟩
    · have hreads : w.system.readsFrom t e = none := by
        rw [System.readsFrom, hpc]
        exact if_neg hin
      obtain ⟨hread, hsame⟩ := pollRead_of_quiet memory w hin
      rw [hread] at hrun
      cases hrun
      refine matches_of_quiet hreads ((hsystem e.recv).trans ?_)
      rw [System.finishRead, hsame]
  · -- the others do not read
    next hpoll hwrite hwait =>
    obtain ⟨system, hsystem, rfl⟩ := Option.map_eq_some_iff.mp hrun
    refine matches_of_quiet ?_ hsystem
    unfold System.readsFrom
    split
    · next failed waiter hpc => exact absurd hpc (hwait failed waiter)
    · next failed sender vector hpc => exact absurd hpc (hwrite failed sender vector)
    · next hpc => exact absurd hpc hpoll
    · rfl

/-! ### Runs -/

instance decidableModest (w : Wired τ) (a : Memory × System.Action τ (List UInt8)) :
    Decidable (w.Modest a) := by
  refine a.casesOn fun memory a => a.casesOn ?_ ?_ ?_ <;> intros <;> dsimp only [Modest] <;>
    infer_instance

/-- The threads have run on the packets that the bytes are, each as long as its header says when it
is read. As long as the connection has not failed, no byte is lost, and `recv` is asked for
something. -/
structure Refines (size : ℕ) (maximum : BitVec 16) (sent : List UInt8) (w : Wired τ) : Prop where
  run : Transition.Reach System.stepRead (fun _ _ => True) (System.init size maximum, [])
    (w.system, w.frames.map onPackets)
  framed : ∀ frame ∈ w.frames, Framed frame
  exact : w.system.conn.hasError = false → sent = w.packets.flatten ++ w.bytes
  queue : w.system.conn.hasError = false → w.queue.length < 32

theorem Refines.step {size : ℕ} {maximum : BitVec 16} {sent : List UInt8}
    (h : w.Refines size maximum sent) (hs : w.system.Bounded)
    {a : Memory × System.Action τ (List UInt8)} (hok : w.Modest a) (hstep : w.step a = some v) :
    v.Refines size maximum sent ∧ v.system.Bounded := by
  -- a step on packets, and what it has read
  obtain ⟨b, frames, hsystem, htaken, hadvances⟩ : ∃ b frames, w.system.step b = some v.system ∧
      w.system.taken b = frames.map onPackets ∧ w.Advances v frames := by
    obtain ⟨memory, a⟩ := a
    cases a with
    | run t e =>
      obtain ⟨recv, frames, hrun, hrest⟩ := matches_run hs hok hstep
      exact ⟨.run t { e with recv := recv }, frames, hrun, hrest⟩
    | call t call =>
      obtain ⟨system, hsystem, rfl⟩ := Option.map_eq_some_iff.mp hstep
      exact ⟨.call t call, [], hsystem, rfl, .of_system w system⟩
    | pollFails t =>
      obtain ⟨system, hsystem, rfl⟩ := Option.map_eq_some_iff.mp hstep
      exact ⟨.pollFails t, [], hsystem, rfl, .of_system w system⟩
  have hfollows := System.follows_step hs hsystem
  have halive : v.system.conn.hasError = false → w.system.conn.hasError = false := fun hgood =>
    Bool.eq_false_iff.mpr fun herror => Bool.eq_false_iff.mp hgood (hfollows.error herror)
  have hread : System.stepRead (w.system, w.frames.map onPackets) b =
      some (v.system, v.frames.map onPackets) := by
    rw [System.stepRead, hsystem, Option.map_some, htaken, hadvances.kept, List.map_append]
  refine ⟨⟨h.run.tail trivial hread, ?_, ?_, ?_⟩, hfollows.bounded hs⟩
  · intro frame hframe
    rw [hadvances.kept, List.mem_append] at hframe
    exact hframe.elim (h.framed frame) (hadvances.framed frame)
  · intro hgood
    rw [h.exact (halive hgood), hadvances.exact hgood, packets, packets, hadvances.kept,
      List.map_append, List.flatten_append, List.append_assoc]
  · exact fun hgood => hadvances.queue hgood (h.queue (halive hgood))

/-- **Reading bytes refines reading packets**, whatever the threads do, however the socket cuts the
stream, and whatever each step finds of memory. -/
theorem refines_of_reach {size : ℕ} {maximum : BitVec 16} {arrivals : List Arrival}
    (h : Transition.Reach Wired.step Wired.Modest (init size maximum arrivals) w) :
    w.Refines size maximum (streamOf arrivals) := by
  have hboth : w.Refines size maximum (streamOf arrivals) ∧ w.system.Bounded :=
    h.invariant (P := fun w => w.Refines size maximum (streamOf arrivals) ∧ w.system.Bounded)
      (fun w a v hw hok hstep => hw.1.step hw.2 hok hstep)
      ⟨⟨.refl _, fun _ h => (List.not_mem_nil h).elim, fun _ => rfl, fun _ => Nat.zero_lt_succ 31⟩,
        fun _ => Nat.zero_le _⟩
  exact hboth.1

/-- An `Expose` event, and the beginning of another one. -/
def exposed : List UInt8 := 12 :: List.replicate 31 0

/-- There is something to read. -/
def readable : Env (Fin 2) (List UInt8) where
  pollin := true
  pollout := false
  recv := ⟨[], none, false⟩
  writev := .again
  noMemory := fun _ => false
  order := [0, 1]
  complete := mem_range_two

/-- Large objects are refused. -/
def scarce : Memory where
  grants size := decide (size ≤ 64)
  bounded _ h := decide_eq_false (by omega)

/-- Thread 0 waits for two events. The first one arrives in two pieces, the second one when there is
less memory, with the beginning of a third one. -/
theorem refines_exposed : ∃ w : Wired (Fin 2), w.packets = [exposed, exposed] ∧
    w.queue = exposed.take 4 ∧
      w.Refines 16384 65535 (exposed ++ exposed ++ exposed.take 4) := by
  have hrun : ([(Input.generous, .call 0 .waitForEvent), (Input.generous, .run 0 readable),
      (Input.generous, .run 0 readable), (Input.generous, .run 0 readable),
      (scarce, .call 0 .waitForEvent), (scarce, .run 0 readable),
      (scarce, .run 0 readable)].foldlM (Transition.checked Wired.step Wired.Modest)
      (init 16384 65535 [.ready (exposed.take 20), .ready (exposed.drop 20 ++ exposed.take 8),
        .ready (exposed.drop 8 ++ exposed.take 4)])).map
        (fun w => (w.packets, w.queue)) = some ([exposed, exposed], exposed.take 4) := by
    decide +kernel
  obtain ⟨w, hw, heq⟩ := Option.map_eq_some_iff.mp hrun
  simp only [Prod.mk.injEq] at heq
  exact ⟨w, heq.1, heq.2, refines_of_reach (.of_checked hw)⟩

end Wired

end Xcb
