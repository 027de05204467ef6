import Xcb.PacketSize

/-!
# Reading does not depend on how the bytes arrive

A reference parser is given the packets one by one, whole. `_xcb_in_read` gets the same bytes in
pieces: a packet may be split between the queue and the blocking reads, and several packets may
arrive at once. Either way the connection ends up the same.

## Main definitions

* `parse`, `deliveries` — the reference parser: the input half, and what is delivered
* `Whole` — packets that are as long as their headers say
* `Input.reads` — successive calls of `_xcb_in_read`
* `Input.Independent` — the result does not depend on the pieces

## Main results

* `Input.readPacket_of_whole` — one packet
* `Input.readPackets_of_whole` — the loop takes whole packets, and stops before an incomplete one
* `Input.independent` — every way of cutting the stream gives what the parser gives
-/

namespace Xcb

variable {τ : Type}

/-! ### The reference parser -/

/-- The packet made of these bytes. -/
def packetOf (bytes : List UInt8) : Packet (List UInt8) := { genericReply bytes with body := bytes }

/-- The size that the header announces, to a connection in this state. -/
def announced (c : XcbIn τ (List UInt8)) (bytes : List UInt8) : ℕ :=
  packetSize ((c.advance (packetOf bytes)).matchPending (packetOf bytes)) (packetOf bytes) bytes

/-- The input half after these packets. -/
def parse (c : XcbIn τ (List UInt8)) : List (List UInt8) → XcbIn τ (List UInt8)
  | [] => c
  | bytes :: packets => parse (c.readPacket (packetOf bytes)).1 packets

/-- What is delivered of one packet, and where. -/
def delivery (c : XcbIn τ (List UInt8)) (p : Packet (List UInt8)) :
    List (Route × Buffer (List UInt8)) :=
  match route ((c.advance p).matchPending p) p with
  | .discard => []
  | r => [(r, (c.advance p).buffer p)]

/-- And of all of them, in order. -/
def deliveries (c : XcbIn τ (List UInt8)) :
    List (List UInt8) → List (Route × Buffer (List UInt8))
  | [] => []
  | bytes :: packets =>
    delivery c (packetOf bytes) ++ deliveries (c.readPacket (packetOf bytes)).1 packets

/-- Every packet is as long as its header says, and not too long. -/
def Whole (c : XcbIn τ (List UInt8)) : List (List UInt8) → Prop
  | [] => True
  | bytes :: packets =>
    bytes.length = announced c bytes ∧ bytes.length < 2 ^ 31 ∧
      Whole (c.readPacket (packetOf bytes)).1 packets

theorem parse_append (c : XcbIn τ (List UInt8)) (ps qs : List (List UInt8)) :
    parse c (ps ++ qs) = parse (parse c ps) qs := by
  induction ps generalizing c with
  | nil => rfl
  | cons bytes ps ih => exact ih _

theorem deliveries_append (c : XcbIn τ (List UInt8)) (ps qs : List (List UInt8)) :
    deliveries c (ps ++ qs) = deliveries c ps ++ deliveries (parse c ps) qs := by
  induction ps generalizing c with
  | nil => rfl
  | cons bytes ps ih =>
    rw [List.cons_append, deliveries, deliveries, ih, List.append_assoc]
    rfl

theorem whole_append {c : XcbIn τ (List UInt8)} {ps qs : List (List UInt8)} :
    Whole c (ps ++ qs) ↔ Whole c ps ∧ Whole (parse c ps) qs := by
  induction ps generalizing c with
  | nil => exact ⟨fun h => ⟨trivial, h⟩, And.right⟩
  | cons bytes ps ih =>
    rw [List.cons_append, Whole, Whole, ih, parse, and_assoc, and_assoc]

/-! ### One packet -/

/-- The header is in the first 32 bytes. -/
theorem genericReply_take (bytes : List UInt8) :
    genericReply (bytes.take 32) = genericReply bytes := by
  have hhead : (bytes.take 32).headD 0 = bytes.headD 0 := by cases bytes <;> rfl
  rw [genericReply, genericReply, hhead]
  simp [List.drop_take, List.take_take]

theorem queueWord_take (bytes : List UInt8) {i : ℕ} (h : i < 8) :
    queueWord (bytes.take 32) i = queueWord bytes i := by
  have hmin : min 4 (32 - 4 * i) = 4 := by omega
  rw [queueWord, queueWord, List.drop_take, List.take_take, hmin]

theorem packetSize_take (pend : Option PendingReply) (p : Packet (List UInt8))
    (bytes : List UInt8) : packetSize pend p (bytes.take 32) = packetSize pend p bytes := by
  simp only [packetSize, queueWord_take bytes (show 1 < 8 by decide),
    queueWord_take bytes (show 2 < 8 by decide), queueWord_take bytes (show 3 < 8 by decide)]

theorem le_announced (c : XcbIn τ (List UInt8)) (bytes : List UInt8) : 32 ≤ announced c bytes :=
  le_packetSize

namespace Input

variable {s t : Input τ} {memory : Memory} {packet : List UInt8} {packets : List (List UInt8)}

/-- What allocation has to grant: everything below `2 ^ 32` bytes. -/
def Grants (memory : Memory) : Prop := ∀ size < 2 ^ 32, memory.grants size = true

/-- The packet at hand, when the stream goes on with a whole one. -/
theorem header_of_bytes {rest : List UInt8} (hqueue : 32 ≤ s.queue.length)
    (hpacket : 32 ≤ packet.length) (hbytes : s.bytes = packet ++ rest) :
    s.header = genericReply packet ∧ s.packetSize = announced s.conn packet := by
  have htake : s.queue.take 32 = packet.take 32 := by
    have h := congrArg (List.take 32) hbytes
    rwa [bytes, List.take_append_of_le_length hqueue, List.take_append_of_le_length hpacket] at h
  have hheader : s.header = genericReply packet := by
    rw [header, ← genericReply_take, htake, genericReply_take]
  refine ⟨hheader, ?_⟩
  rw [packetSize, pend, hheader, ← packetSize_take, htake, packetSize_take]
  rfl

/-- The end of `read_packet` is that of `XcbIn.readPacket`. -/
theorem deliver_eq (hgrants : Grants memory) {c : XcbIn τ (List UInt8)} {p : Packet (List UInt8)}
    (hconn : s.conn = c.advance p) : s.deliver memory p =
      (true, { s with conn := (c.readPacket p).1, delivered := s.delivered ++ delivery c p }) := by
  have hnode : memory.grants listNodeSize = true := hgrants listNodeSize (by decide)
  rw [deliver, hconn, XcbIn.readPacket, delivery]
  cases route ((c.advance p).matchPending p) p with
  | discard =>
    simp only [List.append_nil]
    rw [← hconn]
  | replyStore => simp [hnode]
  | eventQueue => simp [hnode]

/-- **One packet** that is there, or will arrive. -/
theorem readPacket_of_whole (hgrants : Grants memory) {rest : List UInt8}
    (hopen : .failed ∉ s.arrivals) (hqueue : 32 ≤ s.queue.length)
    (hlength : packet.length = announced s.conn packet) (hlt : packet.length < 2 ^ 31)
    (hbytes : s.bytes = packet ++ rest) :
    ∃ t, s.readPacket memory = some (true, t) ∧
      t.conn = (s.conn.readPacket (packetOf packet)).1 ∧ t.hasError = s.hasError ∧
      t.delivered = s.delivered ++ delivery s.conn (packetOf packet) ∧ t.bytes = rest ∧
      t.queue.length < s.queue.length ∧ .failed ∉ t.arrivals ∧
      pending t.arrivals ≤ pending s.arrivals := by
  have hpacket : 32 ≤ packet.length := hlength.ge.trans' (le_announced _ _)
  obtain ⟨hheader, hsize⟩ := header_of_bytes hqueue hpacket hbytes
  have hfits : s.Fits := fits_of_lt (by omega)
  have hgranted : memory.grants (mallocSize s.header s.field).toNat = true := by
    refine hgrants _ ?_
    rw [hfits.malloc]
    split <;> omega
  have hsum := hfits.sum
  rw [readPacket_eq hqueue, if_pos hgranted]
  rcases readBody_cases { s with conn := s.conn.advance s.header } hfits.length_pos
    hfits.eventLength_nonneg hfits.length_le hfits.eventLength_le with
    ⟨taken, t, hbody, htaken, htook, hopen'⟩ | ⟨-, hshort⟩
  · -- what was taken is the packet
    have hsplit : packet ++ rest = taken ++ t.bytes := hbytes.symm.trans htook.bytes
    obtain ⟨rfl, hrest⟩ := List.append_inj hsplit (by omega)
    have hconn : t.conn = s.conn.advance (packetOf packet) := by
      rw [htook.conn, hheader]
      rfl
    have hp : ({ s.header with body := packet } : Packet (List UInt8)) = packetOf packet := by
      rw [hheader]
      rfl
    rw [hbody]
    change ∃ u, some (t.deliver memory { s.header with body := packet }) = _ ∧ _
    rw [hp, deliver_eq hgrants hconn]
    refine ⟨_, rfl, rfl, htook.hasError, ?_, hrest.symm, ?_, hopen' hopen, htook.pending⟩
    · rw [htook.delivered]
    · change t.queue.length < _
      have hdrop := congrArg List.length htook.queue
      rw [List.length_drop] at hdrop
      change t.queue.length = s.queue.length - packet.length at hdrop
      omega
  · have hless := hshort hopen
    have hlen := congrArg List.length hbytes
    rw [List.length_append] at hlen
    change (s.bytes.length : ℤ) < _ at hless
    omega

/-! ### The loop -/

/-- `t` is `s` after the packets `done` have been taken; `todo` are still there. -/
structure Parsed (s t : Input τ) (done todo : List (List UInt8)) : Prop where
  conn : t.conn = parse s.conn done
  hasError : t.hasError = s.hasError
  delivered : t.delivered = s.delivered ++ deliveries s.conn done
  bytes : t.bytes = todo.flatten
  isOpen : .failed ∉ t.arrivals
  pending : pending t.arrivals ≤ pending s.arrivals

theorem Parsed.cons {u : Input τ} {done todo : List (List UInt8)}
    (hconn : t.conn = (s.conn.readPacket (packetOf packet)).1) (hasError : t.hasError = s.hasError)
    (hdelivered : t.delivered = s.delivered ++ delivery s.conn (packetOf packet))
    (hpending : Xcb.pending t.arrivals ≤ Xcb.pending s.arrivals) (h : t.Parsed u done todo) :
    s.Parsed u (packet :: done) todo where
  conn := by rw [h.conn, hconn, parse]
  hasError := h.hasError.trans hasError
  delivered := by rw [h.delivered, hdelivered, hconn, deliveries, List.append_assoc]
  bytes := h.bytes
  isOpen := h.isOpen
  pending := h.pending.trans hpending

theorem Parsed.trans {u : Input τ} {done done' todo todo' : List (List UInt8)}
    (h : s.Parsed t done todo) (h' : t.Parsed u done' todo') :
    s.Parsed u (done ++ done') todo' where
  conn := by rw [h'.conn, h.conn, parse_append]
  hasError := h'.hasError.trans h.hasError
  delivered := by rw [h'.delivered, h.delivered, h.conn, deliveries_append, List.append_assoc]
  bytes := h'.bytes
  isOpen := h'.isOpen
  pending := h'.pending.trans h.pending

/-- **The loop** takes whole packets, and stops when less than a header is left in the queue. -/
theorem readPackets_of_whole (hgrants : Grants memory) (fuel : ℕ) (s : Input τ)
    {packets : List (List UInt8)} (hfuel : s.queue.length < fuel) (hopen : .failed ∉ s.arrivals)
    (hbytes : s.bytes = packets.flatten) (hwhole : Whole s.conn packets) :
    ∃ t done todo, s.readPackets memory fuel = some t ∧ t.queue.length < 32 ∧
      packets = done ++ todo ∧ s.Parsed t done todo := by
  induction fuel generalizing s packets with
  | zero => omega
  | succ fuel ih =>
    by_cases hshort : s.queue.length < 32
    · refine ⟨s, [], packets, ?_, hshort, rfl, ⟨rfl, rfl, ?_, hbytes, hopen, le_rfl⟩⟩
      · simp [readPackets, readPacket, hshort]
      · exact (List.append_nil _).symm
    · rw [not_lt] at hshort
      cases packets with
      | nil =>
        have hlen := congrArg List.length hbytes
        rw [bytes, List.length_append, List.flatten_nil, List.length_nil] at hlen
        omega
      | cons packet packets =>
        obtain ⟨hlength, hlt, hrest⟩ := hwhole
        obtain ⟨t, hread, hconn, herror, hdelivered, hbytes', hqueue, hopen', hpending⟩ :=
          readPacket_of_whole hgrants hopen hshort hlength hlt hbytes
        rw [← hconn] at hrest
        obtain ⟨u, done, todo, hloop, hlast, hsplit, hparsed⟩ :=
          ih t (by omega) hopen' hbytes' hrest
        refine ⟨u, packet :: done, todo, ?_, hlast, by rw [hsplit, List.cons_append],
          hparsed.cons hconn herror hdelivered hpending⟩
        rw [readPackets, hread]
        exact hloop

/-! ### `_xcb_in_read` -/

/-- A call of `recv` moves bytes from the socket to the queue, or there are none. -/
theorem recv_cases {len : ℕ} (hlen : 0 < len) {arrivals : List Arrival}
    (hopen : .failed ∉ arrivals) :
    arrivals = [] ∨ ∃ result rest, recv len arrivals = (result, rest) ∧ result ≠ .ended ∧
      .failed ∉ rest ∧ (∀ queue, received queue result ++ streamOf rest =
        queue ++ streamOf arrivals) ∧ Xcb.pending rest < Xcb.pending arrivals := by
  cases arrivals with
  | nil => exact .inl rfl
  | cons arrival arrivals =>
    obtain ⟨hfirst, hrest⟩ := not_or.mp (fun hmem => hopen (List.mem_cons.mpr hmem))
    right
    cases arrival with
    | failed => exact absurd rfl hfirst
    | ready piece =>
      have hstream : streamOf (.ready piece :: arrivals) = piece ++ streamOf arrivals := rfl
      simp only [recv, if_neg hlen.ne']
      by_cases hpiece : piece = []
      · refine ⟨.again, arrivals, by rw [if_pos hpiece], nofun, hrest, fun queue => ?_, ?_⟩
        · rw [hstream, hpiece, List.nil_append]
          rfl
        · rw [pending_cons]
          omega
      · rw [if_neg hpiece]
        split
        · refine ⟨.bytes piece, arrivals, rfl, nofun, hrest, fun queue => ?_, ?_⟩
          · rw [hstream, ← List.append_assoc]
            rfl
          · rw [pending_cons]
            omega
        · next hge =>
          refine ⟨.bytes (piece.take len), leftover piece len arrivals, rfl, nofun, ?_,
            fun queue => ?_, ?_⟩
          · unfold leftover
            split
            · exact hrest
            · simp [hrest]
          · rw [hstream, streamOf_leftover]
            change (queue ++ piece.take len) ++ _ = _
            rw [List.append_assoc, ← List.append_assoc (piece.take len), List.take_append_drop]
          · have hle := pending_leftover_le piece len arrivals
            rw [pending_cons]
            omega

/-- **One call**: more packets are taken, unless the stream has ended. -/
theorem read_of_whole (hgrants : Grants memory) (hqueue : s.queue.length < 32)
    (hopen : .failed ∉ s.arrivals) (hbytes : s.bytes = packets.flatten)
    (hwhole : Whole s.conn packets) :
    s.arrivals = [] ∧ (∃ t, s.read memory = some (false, t) ∧ t.hasError = true) ∨
      ∃ t done todo, s.read memory = some (true, t) ∧ t.queue.length < 32 ∧
        packets = done ++ todo ∧ s.Parsed t done todo ∧
        Xcb.pending t.arrivals < Xcb.pending s.arrivals := by
  have hroom : 0 < queueSize - s.queue.length := by
    rw [queueSize]
    omega
  rcases recv_cases hroom hopen with hnil | ⟨result, rest, hrecv, hended, hopen', hstream, hless⟩
  · left
    obtain ⟨t, done, todo, hloop, -⟩ := readPackets_of_whole hgrants (s.queue.length + 1) s
      (Nat.lt_succ_self _) hopen hbytes hwhole
    refine ⟨hnil, t.shutdown, ?_, rfl⟩
    have hrecv : recv (queueSize - s.queue.length) s.arrivals = (.ended, s.arrivals) := by
      rw [hnil]
      rfl
    rw [read, hrecv]
    simp only [received]
    rw [hloop]
    rfl
  · right
    obtain ⟨t, done, todo, hloop, hlast, hsplit, hparsed⟩ :=
      readPackets_of_whole hgrants ((received s.queue result).length + 1)
        { s with queue := received s.queue result, arrivals := rest } (Nat.lt_succ_self _) hopen'
        ((hstream s.queue).trans hbytes) hwhole
    refine ⟨t, done, todo, ?_, hlast, hsplit, ⟨hparsed.conn, hparsed.hasError, hparsed.delivered,
      hparsed.bytes, hparsed.isOpen, hparsed.pending.trans hless.le⟩,
      hparsed.pending.trans_lt hless⟩
    rw [read, hrecv]
    simp only
    rw [hloop]
    simp [hended]

/-! ### All of the stream -/

/-- Successive calls of `_xcb_in_read`, until one fails. -/
def reads (memory : Memory) : ℕ → Input τ → Option (Input τ)
  | 0, s => some s
  | n + 1, s =>
    match s.read memory with
    | some (true, s) => reads memory n s
    | some (false, s) => some s
    | none => none

/-- After any number of calls. -/
theorem reads_of_whole (hgrants : Grants memory) (n : ℕ) (s : Input τ)
    {packets : List (List UInt8)} (hqueue : s.queue.length < 32) (hopen : .failed ∉ s.arrivals)
    (hbytes : s.bytes = packets.flatten) (hwhole : Whole s.conn packets) :
    ∃ t, s.reads memory n = some t ∧ (t.hasError = true ∨ t.queue.length < 32 ∧
      ∃ done todo, packets = done ++ todo ∧ s.Parsed t done todo) := by
  induction n generalizing s packets with
  | zero =>
    refine ⟨s, rfl, .inr ⟨hqueue, [], packets, rfl, ⟨rfl, rfl, ?_, hbytes, hopen, le_rfl⟩⟩⟩
    exact (List.append_nil _).symm
  | succ n ih =>
    rcases read_of_whole hgrants hqueue hopen hbytes hwhole with
      ⟨-, t, hread, herror⟩ | ⟨t, done, todo, hread, hlast, hsplit, hparsed, -⟩
    · refine ⟨t, ?_, .inl herror⟩
      rw [reads, hread]
    · rw [hsplit, whole_append, ← hparsed.conn] at hwhole
      obtain ⟨u, hreads, hu⟩ := ih t hlast hparsed.isOpen hparsed.bytes hwhole.2
      refine ⟨u, ?_, hu.imp_right ?_⟩
      · rw [reads, hread]
        exact hreads
      · rintro ⟨hlast', done', todo', hsplit', hparsed'⟩
        exact ⟨hlast', done ++ done', todo', by rw [hsplit, hsplit', List.append_assoc],
          hparsed.trans hparsed'⟩

/-- Calls enough to receive everything. -/
theorem exists_reads (hgrants : Grants memory) (s : Input τ) {packets : List (List UInt8)}
    (hqueue : s.queue.length < 32) (hlive : s.hasError = false) (hopen : .failed ∉ s.arrivals)
    (hbytes : s.bytes = packets.flatten) (hwhole : Whole s.conn packets) :
    ∃ n t, s.reads memory n = some t ∧ t.hasError = false ∧ streamOf t.arrivals = [] := by
  induction hpending : Xcb.pending s.arrivals using Nat.strong_induction_on generalizing s packets
    with
  | _ m ih =>
    by_cases hdone : streamOf s.arrivals = []
    · exact ⟨0, s, rfl, hlive, hdone⟩
    · rcases read_of_whole hgrants hqueue hopen hbytes hwhole with
        ⟨hnil, -⟩ | ⟨t, done, todo, hread, hlast, hsplit, hparsed, hless⟩
      · rw [hnil] at hdone
        exact absurd rfl hdone
      · rw [hsplit, whole_append, ← hparsed.conn] at hwhole
        obtain ⟨n, u, hreads, hu⟩ := ih _ (hpending ▸ hless) t hlast
          (hparsed.hasError.trans hlive) hparsed.isOpen hparsed.bytes hwhole.2 rfl
        refine ⟨n + 1, u, ?_, hu⟩
        rw [reads, hread]
        exact hreads

/-- The stream that goes on from the queue, cut into pieces. -/
def Cut (s : Input τ) (packets : List (List UInt8)) (arrivals : List Arrival) : Prop :=
  .failed ∉ arrivals ∧ s.queue ++ streamOf arrivals = packets.flatten

/-- How the bytes arrive does not matter. -/
structure Independent (memory : Memory) (s : Input τ) (packets : List (List UInt8)) : Prop where
  /-- After every call there is no whole header in the queue. -/
  queue_lt : ∀ arrivals, s.Cut packets arrivals → ∀ n,
    ∃ t, reads memory n { s with arrivals := arrivals } = some t ∧
      (t.hasError = false → t.queue.length < 32)
  /-- Some number of calls receives everything. -/
  finishes : ∀ arrivals, s.Cut packets arrivals →
    ∃ n t, reads memory n { s with arrivals := arrivals } = some t ∧ t.hasError = false ∧
      streamOf t.arrivals = []
  /-- Then the input half is the parser's, and the same was delivered. -/
  parses : ∀ arrivals, s.Cut packets arrivals → ∀ n t,
    reads memory n { s with arrivals := arrivals } = some t → t.hasError = false →
      streamOf t.arrivals = [] → t.conn = parse s.conn packets ∧
        t.delivered = s.delivered ++ deliveries s.conn packets ∧ t.queue = []

/-- Packets that are less than a header. -/
theorem eq_nil_of_whole {c : XcbIn τ (List UInt8)} (hwhole : Whole c packets)
    (h : packets.flatten.length < 32) : packets = [] := by
  cases packets with
  | nil => rfl
  | cons packet packets =>
    have hle := le_announced c packet
    have hlength := hwhole.1
    rw [List.flatten_cons, List.length_append] at h
    omega

/-- **Reading does not depend on how the bytes arrive.** -/
theorem independent (hgrants : Grants memory) (s : Input τ) (packets : List (List UInt8))
    (hqueue : s.queue.length < 32) (hlive : s.hasError = false) (hwhole : Whole s.conn packets) :
    Independent memory s packets := by
  refine ⟨fun arrivals hcut n => ?_, fun arrivals hcut => ?_, fun arrivals hcut n t ht herror
    hdone => ?_⟩
  · obtain ⟨t, hreads, ht⟩ := reads_of_whole hgrants n { s with arrivals := arrivals } hqueue
      hcut.1 hcut.2 hwhole
    refine ⟨t, hreads, fun herror => ?_⟩
    rcases ht with herror' | ht
    · rw [herror] at herror'
      cases herror'
    · exact ht.1
  · exact exists_reads hgrants { s with arrivals := arrivals } hqueue hlive hcut.1 hcut.2 hwhole
  · obtain ⟨u, hreads, hu⟩ := reads_of_whole hgrants n { s with arrivals := arrivals } hqueue
      hcut.1 hcut.2 hwhole
    rw [ht] at hreads
    cases hreads
    rcases hu with herror' | ⟨hlast, done, todo, rfl, hparsed⟩
    · rw [herror] at herror'
      cases herror'
    · -- what is left is in the queue, and less than a packet
      have hleft : t.queue = todo.flatten := by
        rw [← hparsed.bytes, bytes, hdone, List.append_nil]
      have hnil : todo = [] := by
        refine eq_nil_of_whole (whole_append.mp hwhole).2 ?_
        rw [← hleft]
        exact hlast
      rw [hnil, List.append_nil]
      exact ⟨hparsed.conn, hparsed.delivered, by rw [hleft, hnil, List.flatten_nil]⟩

/-- A reply of 40 bytes, of which 20 are in the queue. -/
theorem independent_reply : Independent generous
    (ofQueue ([1, 0, 0, 0, 2, 0, 0, 0] ++ List.replicate 12 0))
    [[1, 0, 0, 0, 2, 0, 0, 0] ++ List.replicate 32 0] :=
  independent (fun size h => by
      simp only [generous, decide_eq_true_eq]
      omega)
    (ofQueue ([1, 0, 0, 0, 2, 0, 0, 0] ++ List.replicate 12 0))
    [[1, 0, 0, 0, 2, 0, 0, 0] ++ List.replicate 32 0] (by decide) rfl
    ⟨by decide, by decide, trivial⟩

end Input

end Xcb
