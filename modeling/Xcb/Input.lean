import Xcb.Out

/-!
# Reading bytes: the socket side of `xcb_in.c`

`XcbIn.readPacket` works on a packet that is there. Here the packet is still bytes: some in
`c->in.queue`, the rest not yet received. The functions are those between `recv` and the moment
the packet is complete; what happens to it then is `XcbIn.readPacket` again.

## The socket

What a socket will hand out is a list of pieces: one for each call of `recv`, unless the call asks
for less, in which case the rest is left for the next one. So any sequence of results of `recv` is
such a list. At its end the server has closed the connection.

## C integers

`int` and `uint32_t` arithmetic is modulo `2 ^ 32`. A `size_t` has 64 bits, so a negative `int`
that is used as a size is a number near `2 ^ 64`. Copying that many bytes, or past the end of an
allocation, has no defined behaviour: such a call is `none`.

## Main definitions

* `recv`, `readBlock` — `recv` and `read_block`
* `Input.readBlock` — `_xcb_in_read_block`
* `Input.readPacket` — `read_packet`
* `Input.read` — `_xcb_in_read`
-/

namespace Xcb

variable {τ β : Type}

/-! ### Memory -/

/-- Which sizes `malloc` grants. No object is larger than `PTRDIFF_MAX`. -/
structure Memory where
  grants : ℕ → Bool
  bounded : ∀ size, 2 ^ 63 ≤ size → grants size = false

/-- `sizeof(struct reply_list)`, and of a `struct event_list` too: two pointers. -/
def listNodeSize : ℕ := 16

/-! ### The socket -/

/-- What a call of `recv` finds. -/
inductive Arrival
  /-- Bytes. When there are none the call says `EAGAIN`. -/
  | ready (bytes : List UInt8)
  /-- Any other error. -/
  | failed
  deriving DecidableEq, Repr

def Arrival.bytes : Arrival → List UInt8
  | .ready bytes => bytes
  | .failed => []

/-- All bytes that arrive. -/
def streamOf (arrivals : List Arrival) : List UInt8 := arrivals.flatMap Arrival.bytes

/-- What is left after a call that asked for `len` bytes, and got as many. -/
def leftover (bytes : List UInt8) (len : ℕ) (arrivals : List Arrival) : List Arrival :=
  if bytes.length = len then arrivals else .ready (bytes.drop len) :: arrivals

/-- What `recv` returns: bytes, none yet, or `0` or an error. -/
inductive Received
  | bytes (bytes : List UInt8)
  | again
  | ended
  deriving DecidableEq, Repr

/-- `recv`, into a buffer of `len` bytes. A call for nothing returns `0`. -/
def recv (len : ℕ) : List Arrival → Received × List Arrival
  | [] => (.ended, [])
  | .failed :: arrivals => (.ended, arrivals)
  | .ready bytes :: arrivals =>
    if len = 0 then (.ended, .ready bytes :: arrivals)
    else if bytes = [] then (.again, arrivals)
    else if bytes.length < len then (.bytes bytes, arrivals)
    else (.bytes (bytes.take len), leftover bytes len arrivals)

/-- `read_block`: `len` bytes, however many calls of `recv` that takes, with a poll between two of
them; `none` where it returns `0` or less. -/
def readBlock (len : ℕ) : List Arrival → Option (List UInt8) × List Arrival
  | [] => (if len = 0 then some [] else none, [])
  | .failed :: arrivals => if len = 0 then (some [], .failed :: arrivals) else (none, arrivals)
  | .ready bytes :: arrivals =>
    if bytes.length < len then
      let (rest, arrivals) := readBlock (len - bytes.length) arrivals
      (rest.map (bytes ++ ·), arrivals)
    else (some (bytes.take len), leftover bytes len arrivals)

/-! ### The header of a packet -/

/-- `genrep`, from the first bytes of the queue. -/
def genericReply (queue : List UInt8) : Packet (List UInt8) where
  responseType := (queue.headD 0).toBitVec
  sequence := BitVec.ofNat 16 (ofBytes ((queue.drop 2).take 2))
  body := queue.take 32

/-- `((uint32_t *) c->in.queue)[i]` -/
def queueWord (queue : List UInt8) (i : ℕ) : BitVec 32 :=
  BitVec.ofNat 32 (ofBytes ((queue.drop (4 * i)).take 4))

/-- `XCB_XGE_EVENT` -/
def xcbXgeEvent : BitVec 8 := 35

def Packet.isGenericEvent (p : Packet β) : Bool := p.responseType == xcbXgeEvent

/-- Is the length field of this reply one of those the server gets wrong? -/
def needsGlxLength (pend : Option PendingReply) (p : Packet β) : Bool :=
  p.isReply && pend.any (·.workaround == .glxGetFbConfigsBug)

/-- `genrep.length`, computed from the counts in the packet where the server gets it wrong. -/
def lengthField (pend : Option PendingReply) (p : Packet β) (queue : List UInt8) : BitVec 32 :=
  if needsGlxLength pend p then queueWord queue 2 * queueWord queue 3 * 2 else queueWord queue 1

/-- `length`: how much is read before the full sequence number. -/
def blockLength (p : Packet β) (length : BitVec 32) : BitVec 32 :=
  if p.isReply then 32 + length * 4 else 32

/-- `eventlength`: how much is read after it. -/
def eventLength (p : Packet β) (length : BitVec 32) : BitVec 32 :=
  if p.isGenericEvent then length * 4 else 0

/-- The argument of `malloc`: an `int`, and a `size_t` that is added to it. -/
def mallocSize (p : Packet β) (length : BitVec 32) : BitVec 64 :=
  (blockLength p length + eventLength p length).signExtend 64 + if p.isReply then 0 else 4

/-! ### `_xcb_in_read_block` -/

/-- A connection that reads. `queue` is what is in use of `c->in.queue`. What was delivered is
remembered, and no function looks at it. -/
structure Input (τ : Type) where
  conn : XcbIn τ (List UInt8)
  hasError : Bool
  queue : List UInt8
  arrivals : List Arrival
  delivered : List (Route × Buffer (List UInt8))
  deriving DecidableEq, Repr

namespace Input

/-- `_xcb_conn_shutdown` -/
def shutdown (s : Input τ) : Input τ := { s with hasError := true }

/-- `_xcb_in_read_block`. The bytes are `none` where it returns `0` or less. -/
def readBlock (s : Input τ) (len : ℤ) : Option (Option (List UInt8) × Input τ) :=
  if len < 0 then none
  else
    let done := min s.queue.length len.toNat
    let bytes := s.queue.take done
    let s := { s with queue := s.queue.drop done }
    if done < len.toNat then
      match Xcb.readBlock (len.toNat - done) s.arrivals with
      | (some rest, arrivals) => some (some (bytes ++ rest), { s with arrivals := arrivals })
      | (none, arrivals) => some (none, shutdown { s with arrivals := arrivals })
    else some (if len = 0 then none else some bytes, s)

/-! ### `read_packet` -/

/-- The packet is complete: keep it, or drop it. The result is the return value. -/
def deliver (memory : Memory) (s : Input τ) (p : Packet (List UInt8)) : Bool × Input τ :=
  match route (s.conn.matchPending p) p with
  | .discard => (true, s)
  | .replyStore =>
    if memory.grants listNodeSize then
      (true, { s with
        conn := { s.conn with currentReply := s.conn.currentReply ++ [s.conn.buffer p] }
        delivered := s.delivered ++ [(.replyStore, s.conn.buffer p)] })
    else (false, s.shutdown)
  | .eventQueue =>
    if memory.grants listNodeSize then
      (true, { s with
        conn := { s.conn with events := s.conn.events ++ [s.conn.buffer p] }
        delivered := s.delivered ++ [(.eventQueue, s.conn.buffer p)] })
    else (false, s.shutdown)

/-- The second call of `_xcb_in_read_block`, behind the full sequence number, into a buffer of
`size` bytes. -/
def readTail (s : Input τ) (eventlength : ℤ) (size : ℕ) :
    Option (Option (List UInt8) × Input τ) :=
  if eventlength = 0 then some (some [], s)
  else if (size : ℤ) < 36 + eventlength then none
  else s.readBlock eventlength

/-- Both calls of `_xcb_in_read_block`. -/
def readBody (s : Input τ) (length eventlength : ℤ) (size : ℕ) :
    Option (Option (List UInt8) × Input τ) :=
  if (size : ℤ) < length then none
  else
    match s.readBlock length with
    | some (some bytes, s) =>
      (s.readTail eventlength size).map fun (rest, s) => (rest.map (bytes ++ ·), s)
    | some (none, s) => some (none, s)
    | none => none

/-- `read_packet`, with its return value. -/
def readPacket (memory : Memory) (s : Input τ) : Option (Bool × Input τ) :=
  if s.queue.length < 32 then some (false, s)
  else
    let p := genericReply s.queue
    let s := { s with conn := s.conn.advance p }
    let field := lengthField (s.conn.matchPending p) p s.queue
    let size := (mallocSize p field).toNat
    if memory.grants size then
      match s.readBody (blockLength p field).toInt (eventLength p field).toInt size with
      | some (some bytes, s) => some (s.deliver memory { p with body := bytes })
      | some (none, s) => some (false, s)
      | none => none
    else some (false, s.shutdown)

/-! ### `_xcb_in_read` -/

/-- `while (read_packet(c))`, for at most `fuel` packets. -/
def readPackets (memory : Memory) : ℕ → Input τ → Option (Input τ)
  | 0, s => some s
  | fuel + 1, s =>
    match s.readPacket memory with
    | some (true, s) => readPackets memory fuel s
    | some (false, s) => some s
    | none => none

/-- `sizeof(c->in.queue)` -/
def queueSize : ℕ := 4096

/-- The queue after `recv` has returned. -/
def received (queue : List UInt8) : Received → List UInt8
  | .bytes bytes => queue ++ bytes
  | .again | .ended => queue

/-- `_xcb_in_read`. Every packet takes a byte of the queue at least, which bounds the loop. -/
def read (memory : Memory) (s : Input τ) : Option (Bool × Input τ) :=
  let (result, arrivals) := recv (queueSize - s.queue.length) s.arrivals
  let queue := received s.queue result
  (readPackets memory (queue.length + 1) { s with queue := queue, arrivals := arrivals }).map
    fun s => if result = .ended then (false, s.shutdown) else (true, s)

end Input

/-! ### What the calls take -/

theorem streamOf_leftover (bytes : List UInt8) (len : ℕ) (arrivals : List Arrival) :
    streamOf (leftover bytes len arrivals) = bytes.drop len ++ streamOf arrivals := by
  unfold leftover
  split
  · next heq => rw [List.drop_of_length_le heq.le, List.nil_append]
  · rfl

/-- `read_block` takes the bytes it returns from the front of the stream. -/
theorem readBlock_some {len : ℕ} {arrivals rest : List Arrival} {bytes : List UInt8}
    (h : readBlock len arrivals = (some bytes, rest)) :
    bytes.length = len ∧ streamOf arrivals = bytes ++ streamOf rest := by
  induction arrivals generalizing len bytes with
  | nil =>
    by_cases hlen : len = 0
    · simp only [readBlock, if_pos hlen, Prod.mk.injEq, Option.some.injEq] at h
      obtain ⟨rfl, rfl⟩ := h
      exact ⟨hlen.symm, rfl⟩
    · simp [readBlock, hlen] at h
  | cons arrival arrivals ih =>
    cases arrival with
    | failed =>
      by_cases hlen : len = 0
      · simp only [readBlock, if_pos hlen, Prod.mk.injEq, Option.some.injEq] at h
        obtain ⟨rfl, rfl⟩ := h
        exact ⟨hlen.symm, rfl⟩
      · simp [readBlock, hlen] at h
    | ready piece =>
      simp only [readBlock] at h
      split at h
      · next hlt =>
        obtain ⟨hmap, rfl⟩ := Prod.mk.inj h
        obtain ⟨more, hmore, rfl⟩ := Option.map_eq_some_iff.mp hmap
        obtain ⟨hlength, hstream⟩ := ih (Prod.ext hmore rfl)
        refine ⟨?_, ?_⟩
        · rw [List.length_append, hlength]
          omega
        · change piece ++ streamOf arrivals = _
          rw [hstream, List.append_assoc]
      · next hge =>
        obtain ⟨hbytes, rfl⟩ := Prod.mk.inj h
        cases hbytes
        refine ⟨List.length_take_of_le (by omega), ?_⟩
        rw [streamOf_leftover, ← List.append_assoc, List.take_append_drop]
        rfl

/-- How much there is to be received, counting the pieces too. -/
def pending (arrivals : List Arrival) : ℕ := arrivals.length + (streamOf arrivals).length

theorem pending_cons (piece : List UInt8) (arrivals : List Arrival) :
    pending (.ready piece :: arrivals) = pending arrivals + piece.length + 1 := by
  have hlength : (streamOf (.ready piece :: arrivals)).length =
      piece.length + (streamOf arrivals).length := List.length_append
  rw [pending, hlength, pending, List.length_cons]
  omega

theorem pending_leftover_le (bytes : List UInt8) (len : ℕ) (arrivals : List Arrival) :
    pending (leftover bytes len arrivals) ≤ pending arrivals + (bytes.length - len) + 1 := by
  unfold leftover
  split
  · omega
  · rw [pending_cons, List.length_drop]

theorem pending_readBlock_le (len : ℕ) (arrivals : List Arrival) :
    pending (readBlock len arrivals).2 ≤ pending arrivals := by
  induction arrivals generalizing len with
  | nil => exact le_rfl
  | cons arrival arrivals ih =>
    cases arrival with
    | failed =>
      by_cases hlen : len = 0
      · simp [readBlock, hlen]
      · simp only [readBlock, if_neg hlen]
        change _ ≤ (arrivals.length + 1) + (streamOf arrivals).length
        rw [pending]
        omega
    | ready piece =>
      rw [pending_cons]
      simp only [readBlock]
      split
      · have hrest := ih (len - piece.length)
        change pending (readBlock (len - piece.length) arrivals).2 ≤ _
        omega
      · have hle := pending_leftover_le piece len arrivals
        change pending (leftover piece len arrivals) ≤ _
        omega

/-- When enough arrives it does not fail. -/
theorem exists_readBlock (len : ℕ) {arrivals : List Arrival} (hopen : .failed ∉ arrivals)
    (h : len ≤ (streamOf arrivals).length) :
    ∃ bytes rest, readBlock len arrivals = (some bytes, rest) ∧ .failed ∉ rest := by
  induction arrivals generalizing len with
  | nil =>
    obtain rfl : len = 0 := Nat.le_zero.mp h
    exact ⟨[], [], rfl, List.not_mem_nil⟩
  | cons arrival arrivals ih =>
    obtain ⟨hfirst, hrest⟩ := not_or.mp (fun hmem => hopen (List.mem_cons.mpr hmem))
    cases arrival with
    | failed => exact absurd rfl hfirst
    | ready piece =>
      have hlength : (streamOf (.ready piece :: arrivals)).length =
          piece.length + (streamOf arrivals).length := List.length_append
      simp only [readBlock]
      split
      · next hlt =>
        obtain ⟨bytes, rest, heq, hrest'⟩ := @ih (len - piece.length) hrest (by omega)
        refine ⟨piece ++ bytes, rest, ?_, hrest'⟩
        rw [heq]
        rfl
      · refine ⟨_, _, rfl, ?_⟩
        unfold leftover
        split
        · exact hrest
        · simp [hrest]

namespace Input

variable {s t : Input τ} {memory : Memory}

/-- All bytes that were not looked at. -/
def bytes (s : Input τ) : List UInt8 := s.queue ++ streamOf s.arrivals

/-- `t` is `s` after these bytes were taken, and nothing else happened. -/
structure Took (s t : Input τ) (taken : List UInt8) : Prop where
  conn : t.conn = s.conn
  hasError : t.hasError = s.hasError
  delivered : t.delivered = s.delivered
  bytes : s.bytes = taken ++ t.bytes
  queue : t.queue = s.queue.drop taken.length
  pending : pending t.arrivals ≤ pending s.arrivals

theorem Took.trans {u : Input τ} {a b : List UInt8} (h : s.Took t a) (h' : t.Took u b) :
    s.Took u (a ++ b) where
  conn := h'.conn.trans h.conn
  hasError := h'.hasError.trans h.hasError
  delivered := h'.delivered.trans h.delivered
  bytes := by rw [h.bytes, h'.bytes, List.append_assoc]
  queue := by rw [h'.queue, h.queue, List.drop_drop, List.length_append]
  pending := h'.pending.trans h.pending

theorem Took.refl (s : Input τ) : s.Took s [] := ⟨rfl, rfl, rfl, rfl, rfl, le_rfl⟩

/-- **`_xcb_in_read_block`**, called for something, takes as much, or the connection is shut
down. -/
theorem readBlock_cases (s : Input τ) {len : ℤ} (h : 0 < len) :
    (∃ bytes t, s.readBlock len = some (some bytes, t) ∧ (bytes.length : ℤ) = len ∧
        s.Took t bytes ∧ (.failed ∉ s.arrivals → .failed ∉ t.arrivals)) ∨
      (∃ t, s.readBlock len = some (none, t) ∧ t.hasError = true) ∧
        (.failed ∉ s.arrivals → s.bytes.length < len) := by
  obtain ⟨n, rfl⟩ := Int.eq_ofNat_of_zero_le h.le
  have hneg : ¬ ((n : ℤ) < 0) := by omega
  have hlength : s.bytes.length = s.queue.length + (streamOf s.arrivals).length :=
    List.length_append
  by_cases hqueue : n ≤ s.queue.length
  · -- the queue holds all of it
    left
    have hmin : min s.queue.length n = n := by omega
    have hne : n ≠ 0 := by omega
    refine ⟨s.queue.take n, { s with queue := s.queue.drop n }, ?_, ?_, ?_, id⟩
    · simp [readBlock, hneg, hmin, hne]
    · rw [List.length_take_of_le hqueue]
    · refine ⟨rfl, rfl, rfl, ?_, ?_, le_rfl⟩
      · change s.queue ++ streamOf s.arrivals = _ ++ (_ ++ _)
        rw [← List.append_assoc, List.take_append_drop]
      · rw [List.length_take_of_le hqueue]
  · have hmin : min s.queue.length n = s.queue.length := by omega
    have hlt : s.queue.length < n := by omega
    obtain ⟨result, arrivals, hblock⟩ : ∃ result arrivals,
        Xcb.readBlock (n - s.queue.length) s.arrivals = (result, arrivals) := ⟨_, _, rfl⟩
    cases result with
    | some rest =>
      left
      obtain ⟨hrest, hstream⟩ := readBlock_some hblock
      refine ⟨s.queue ++ rest, { s with queue := [], arrivals := arrivals }, ?_, ?_, ?_, ?_⟩
      · simp [readBlock, hneg, hmin, hlt, hblock]
      · rw [List.length_append]
        omega
      · refine ⟨rfl, rfl, rfl, ?_, ?_, ?_⟩
        · change s.queue ++ streamOf s.arrivals = _ ++ ([] ++ streamOf arrivals)
          rw [hstream, List.nil_append, List.append_assoc]
        · rw [List.drop_of_length_le]
          rw [List.length_append]
          omega
        · have hle := pending_readBlock_le (n - s.queue.length) s.arrivals
          rw [hblock] at hle
          exact hle
      · intro hopen
        obtain ⟨bytes, rest', heq, hrest'⟩ := exists_readBlock (n - s.queue.length) hopen (by
          rw [hstream, List.length_append]
          omega)
        rw [hblock] at heq
        obtain ⟨-, rfl⟩ := Prod.mk.inj heq
        exact hrest'
    | none =>
      right
      refine ⟨⟨shutdown { s with queue := [], arrivals := arrivals }, ?_, rfl⟩, fun hopen => ?_⟩
      · simp [readBlock, hneg, hmin, hlt, hblock]
      · by_contra hge
        obtain ⟨bytes, rest, heq, -⟩ := exists_readBlock (n - s.queue.length) hopen (by omega)
        rw [hblock] at heq
        cases heq

theorem readTail_cases (s : Input τ) {eventlength : ℤ} {size : ℕ} (hpos : 0 ≤ eventlength)
    (hsize : eventlength ≠ 0 → 36 + eventlength ≤ size) :
    (∃ bytes t, s.readTail eventlength size = some (some bytes, t) ∧
        (bytes.length : ℤ) = eventlength ∧ s.Took t bytes ∧
        (.failed ∉ s.arrivals → .failed ∉ t.arrivals)) ∨
      (∃ t, s.readTail eventlength size = some (none, t) ∧ t.hasError = true) ∧
        (.failed ∉ s.arrivals → s.bytes.length < eventlength) := by
  by_cases hzero : eventlength = 0
  · exact .inl ⟨[], s, by simp [readTail, hzero], hzero.symm, .refl s, id⟩
  · have hroom : ¬ ((size : ℤ) < 36 + eventlength) := not_lt.mpr (hsize hzero)
    have htail : s.readTail eventlength size = s.readBlock eventlength := by
      rw [readTail, if_neg hzero, if_neg hroom]
    rw [htail]
    exact readBlock_cases s (lt_of_le_of_ne hpos (Ne.symm hzero))

/-- Both calls together, into a buffer that is large enough. -/
theorem readBody_cases (s : Input τ) {length eventlength : ℤ} {size : ℕ} (hlength : 0 < length)
    (hpos : 0 ≤ eventlength) (hfirst : length ≤ size)
    (hsize : eventlength ≠ 0 → 36 + eventlength ≤ size) :
    (∃ bytes t, s.readBody length eventlength size = some (some bytes, t) ∧
        (bytes.length : ℤ) = length + eventlength ∧ s.Took t bytes ∧
        (.failed ∉ s.arrivals → .failed ∉ t.arrivals)) ∨
      (∃ t, s.readBody length eventlength size = some (none, t) ∧ t.hasError = true) ∧
        (.failed ∉ s.arrivals → s.bytes.length < length + eventlength) := by
  have hroom : ¬ ((size : ℤ) < length) := not_lt.mpr hfirst
  rcases readBlock_cases s hlength with
    ⟨first, t, hread, hfirst, htook, hopen⟩ | ⟨⟨t, hread, herror⟩, hshort⟩
  · rcases readTail_cases t hpos hsize with
      ⟨rest, u, htail, hrest, htook', hopen'⟩ | ⟨⟨u, htail, herror⟩, hshort⟩
    · refine .inl ⟨first ++ rest, u, ?_, ?_, htook.trans htook', fun h => hopen' (hopen h)⟩
      · simp [readBody, hroom, hread, htail]
      · rw [List.length_append]
        omega
    · refine .inr ⟨⟨u, ?_, herror⟩, fun h => ?_⟩
      · simp [readBody, hroom, hread, htail]
      · have hless := hshort (hopen h)
        have hbytes := congrArg List.length htook.bytes
        rw [List.length_append] at hbytes
        omega
  · refine .inr ⟨⟨t, ?_, herror⟩, fun h => ?_⟩
    · simp [readBody, hroom, hread]
    · have hless := hshort h
      omega

/-- Keeping or dropping a packet takes nothing. -/
theorem deliver_cases (memory : Memory) (s : Input τ) (p : Packet (List UInt8)) :
    (s.deliver memory p).2.bytes = s.bytes ∧ (s.deliver memory p).2.queue = s.queue ∧
      ((s.deliver memory p).1 = true ∧ (s.deliver memory p).2.hasError = s.hasError ∧
          ((s.deliver memory p).2.delivered = s.delivered ∨
            ∃ r, (s.deliver memory p).2.delivered = s.delivered ++ [(r, s.conn.buffer p)]) ∨
        (s.deliver memory p).1 = false ∧ (s.deliver memory p).2.hasError = true) := by
  unfold deliver
  split
  · exact ⟨rfl, rfl, .inl ⟨rfl, rfl, .inl rfl⟩⟩
  · split
    · exact ⟨rfl, rfl, .inl ⟨rfl, rfl, .inr ⟨_, rfl⟩⟩⟩
    · exact ⟨rfl, rfl, .inr ⟨rfl, rfl⟩⟩
  · split
    · exact ⟨rfl, rfl, .inl ⟨rfl, rfl, .inr ⟨_, rfl⟩⟩⟩
    · exact ⟨rfl, rfl, .inr ⟨rfl, rfl⟩⟩

/-! ### The packet at hand -/

/-- `genrep` -/
def header (s : Input τ) : Packet (List UInt8) := genericReply s.queue

/-- `pend` -/
def pend (s : Input τ) : Option PendingReply := (s.conn.advance s.header).matchPending s.header

/-- `genrep.length` -/
def field (s : Input τ) : BitVec 32 := lengthField s.pend s.header s.queue

theorem readPacket_eq (h : 32 ≤ s.queue.length) : s.readPacket memory =
    if memory.grants (mallocSize s.header s.field).toNat then
      match readBody { s with conn := s.conn.advance s.header }
          (blockLength s.header s.field).toInt (eventLength s.header s.field).toInt
          (mallocSize s.header s.field).toNat with
      | some (some bytes, s') => some (s'.deliver memory { s.header with body := bytes })
      | some (none, s') => some (false, s')
      | none => none
    else some (false, shutdown { s with conn := s.conn.advance s.header }) := by
  rw [readPacket, if_neg (not_lt.mpr h)]
  rfl

end Input

end Xcb
