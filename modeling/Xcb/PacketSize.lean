import Xcb.Input

/-!
# How long a packet is

The server says how long its packet is, in words behind the first 32 bytes, and `read_packet`
computes an allocation and the arguments of two reads from that. The arithmetic wraps. A wrapped
length is harmless where it is negative, because nobody allocates that much; everywhere else the
packet is cut in the wrong place or written over the end of the buffer. `FitsInt` says when neither
happens.

## Main definitions

* `Input.packetSize` — the size of the packet at hand, without wrap-around
* `Input.Exact` — `read_packet` takes exactly that much, or shuts the connection down

## Main results

* `Input.exact_iff` — `Exact` whatever is allocated and whatever arrives, exactly for `FitsInt`
-/

namespace Xcb

variable {τ β : Type}

/-! ### Sizes -/

/-- The size of a packet, from the counts in its header. -/
def packetSize (pend : Option PendingReply) (p : Packet β) (queue : List UInt8) : ℕ :=
  if needsGlxLength pend p then 32 + 8 * ((queueWord queue 2).toNat * (queueWord queue 3).toNat)
  else if p.isReply || p.isGenericEvent then 32 + 4 * (queueWord queue 1).toNat
  else 32

/-- The sizes that survive `int` arithmetic: those that are exact, and those that become a negative
number. The four bytes that are added for everything but replies make `0` of the last few. -/
def FitsInt (p : Packet β) (size : ℕ) : Prop :=
  size < 2 ^ 31 ∨ 2 ^ 31 ≤ size % 2 ^ 32 ∧ (p.isReply = true ∨ size % 2 ^ 32 < 2 ^ 32 - 4)

instance (p : Packet β) (size : ℕ) : Decidable (FitsInt p size) := by
  unfold FitsInt
  infer_instance

theorem isGenericEvent_eq_false {p : Packet β} (h : p.isReply = true) :
    p.isGenericEvent = false := by
  simp only [Packet.isReply, beq_iff_eq] at h
  rw [Packet.isGenericEvent, h]
  rfl

variable {pend : Option PendingReply} {p : Packet β} {queue : List UInt8}

/-- The length field of the packet gives its size, up to wrap-around. -/
theorem packetSize_eq (pend : Option PendingReply) (p : Packet β) (queue : List UInt8) :
    ∃ words, packetSize pend p queue = 32 + 4 * words ∧
    (p.isReply = false → p.isGenericEvent = false → words = 0) ∧
    (p.isReply = true ∨ p.isGenericEvent = true →
      lengthField pend p queue = BitVec.ofNat 32 words) := by
  by_cases hglx : needsGlxLength pend p = true
  · refine ⟨2 * ((queueWord queue 2).toNat * (queueWord queue 3).toNat), ?_, ?_, fun _ => ?_⟩
    · rw [packetSize, if_pos hglx]
      ring
    · intro hreply
      simp [needsGlxLength, hreply] at hglx
    · rw [lengthField, if_pos hglx]
      apply BitVec.eq_of_toNat_eq
      simp only [BitVec.toNat_mul, BitVec.toNat_ofNat]
      rw [Nat.mul_comm 2, Nat.mod_mul_mod]
      rfl
  · by_cases hlong : (p.isReply || p.isGenericEvent) = true
    · refine ⟨(queueWord queue 1).toNat, ?_, fun hreply hevent => ?_, fun _ => ?_⟩
      · rw [packetSize, if_neg hglx, if_pos hlong]
      · rw [hreply, hevent] at hlong
        cases hlong
      · rw [lengthField, if_neg hglx, BitVec.ofNat_toNat, BitVec.setWidth_eq]
    · refine ⟨0, ?_, fun _ _ => rfl, fun h => ?_⟩
      · rw [packetSize, if_neg hglx, if_neg hlong]
      · simp only [Bool.or_eq_true] at hlong
        exact absurd h hlong

/-- The `int` of a number modulo `2 ^ 32`. -/
theorem toInt_ofNat_32 (n : ℕ) : (BitVec.ofNat 32 n).toInt =
    if n % 2 ^ 32 < 2 ^ 31 then ((n % 2 ^ 32 : ℕ) : ℤ) else ((n % 2 ^ 32 : ℕ) : ℤ) - 2 ^ 32 := by
  rw [BitVec.toInt_eq_toNat_cond, BitVec.toNat_ofNat]
  split <;> split <;> omega

/-- And that `int` as a `size_t`. -/
theorem toNat_signExtend_ofNat (n : ℕ) : ((BitVec.ofNat 32 n).signExtend 64).toNat =
    n % 2 ^ 32 + if n % 2 ^ 32 < 2 ^ 31 then 0 else 2 ^ 64 - 2 ^ 32 := by
  have hlt : n % 2 ^ 32 < 2 ^ 32 := Nat.mod_lt _ (by norm_num)
  rw [BitVec.toNat_signExtend, BitVec.toNat_setWidth, BitVec.toNat_ofNat, BitVec.msb_eq_decide,
    BitVec.toNat_ofNat, Nat.mod_eq_of_lt (hlt.trans (by norm_num))]
  by_cases h : n % 2 ^ 32 < 2 ^ 31
  · rw [if_pos h, if_neg]
    rw [decide_eq_true_eq]
    omega
  · rw [if_neg h, if_pos]
    rw [decide_eq_true_eq]
    omega

/-- What `read_packet` computes for a packet of `size` bytes. -/
structure Computes (p : Packet β) (length : BitVec 32) (size : ℕ) : Prop where
  reply : p.isReply = true → (blockLength p length).toInt = (BitVec.ofNat 32 size).toInt ∧
    (eventLength p length).toInt = 0
  other : p.isReply = false → (blockLength p length).toInt = 32 ∧
    (eventLength p length).toInt = (BitVec.ofNat 32 (size - 32)).toInt
  malloc : (mallocSize p length).toNat =
    (((BitVec.ofNat 32 size).signExtend 64).toNat + if p.isReply then 0 else 4) % 2 ^ 64

theorem computes (pend : Option PendingReply) (p : Packet β) (queue : List UInt8) :
    Computes p (lengthField pend p queue) (packetSize pend p queue) := by
  obtain ⟨words, hsize, hshort, hlong⟩ := packetSize_eq pend p queue
  set field := lengthField pend p queue
  rw [hsize]
  have hmul : ∀ n : ℕ, BitVec.ofNat 32 n * 4 = BitVec.ofNat 32 (4 * n) := by
    intro n
    rw [Nat.mul_comm, BitVec.ofNat_mul]
    rfl
  have hadd : ∀ n : ℕ, 32 + BitVec.ofNat 32 n = BitVec.ofNat 32 (32 + n) := by
    intro n
    rw [BitVec.ofNat_add]
    rfl
  have hevent : p.isReply = false → eventLength p field = BitVec.ofNat 32 (4 * words) := by
    intro hreply
    by_cases hgeneric : p.isGenericEvent = true
    · rw [eventLength, if_pos hgeneric, hlong (.inr hgeneric), hmul]
    · rw [Bool.not_eq_true] at hgeneric
      rw [eventLength, hgeneric, hshort hreply hgeneric]
      rfl
  have hsum : blockLength p field + eventLength p field = BitVec.ofNat 32 (32 + 4 * words) := by
    cases hreply : p.isReply with
    | true =>
      rw [eventLength, isGenericEvent_eq_false hreply, blockLength, if_pos hreply,
        hlong (.inl hreply), hmul, hadd]
      exact BitVec.add_zero _
    | false =>
      rw [hevent hreply, blockLength, hreply, ← hadd]
      rfl
  refine ⟨fun hreply => ?_, fun hreply => ?_, ?_⟩
  · have hzero : eventLength p field = 0 := by
      rw [eventLength, isGenericEvent_eq_false hreply]
      rfl
    rw [hzero] at hsum
    rw [(BitVec.add_zero (blockLength p field)).symm.trans hsum, hzero]
    exact ⟨rfl, rfl⟩
  · rw [hevent hreply, blockLength, hreply, Nat.add_sub_cancel_left]
    exact ⟨rfl, rfl⟩
  · rw [mallocSize, hsum, BitVec.toNat_add]
    cases p.isReply <;> rfl

theorem needsGlxLength_eq_false (h : p.isReply = false) : needsGlxLength pend p = false := by
  rw [needsGlxLength, h, Bool.false_and]

/-- Only replies and GenericEvents are long. -/
theorem packetSize_of_short (hreply : p.isReply = false) (hevent : p.isGenericEvent = false) :
    packetSize pend p queue = 32 := by
  rw [packetSize, needsGlxLength_eq_false hreply, hreply, hevent]
  rfl

theorem le_packetSize : 32 ≤ packetSize pend p queue := by
  obtain ⟨words, hsize, -⟩ := packetSize_eq pend p queue
  omega

namespace Input

variable {s : Input τ} {memory : Memory}

/-- The size of the packet at hand. -/
def packetSize (s : Input τ) : ℕ := Xcb.packetSize s.pend s.header s.queue

/-! ### Taking exactly one packet -/

/-- How `read_packet` should end: with exactly the packet taken and copied, into a buffer with room
for it and for the full sequence number of what is no reply; or with the connection shut down. -/
def Ends (s : Input τ) : Option (Bool × Input τ) → Prop
  | some (true, t) => ∃ packet, packet.length = s.packetSize ∧ s.bytes = packet ++ t.bytes ∧
      t.hasError = s.hasError ∧
      s.packetSize + (if s.header.isReply then 0 else 4) ≤ (mallocSize s.header s.field).toNat ∧
      (t.delivered = s.delivered ∨
        ∃ r b, t.delivered = s.delivered ++ [(r, b)] ∧ b.packet.body = packet)
  | some (false, t) => t.hasError = true
  | none => False

/-- `read_packet` does that, and asks `_xcb_in_read_block` for something whenever it calls it. -/
structure Exact (memory : Memory) (s : Input τ) : Prop where
  positive : memory.grants (mallocSize s.header s.field).toNat = true →
    0 < (blockLength s.header s.field).toInt ∧ 0 ≤ (eventLength s.header s.field).toInt
  ends : s.Ends (s.readPacket memory)

/-- What is computed for a packet that is not too long. -/
structure Fits (s : Input τ) : Prop where
  length_pos : 0 < (blockLength s.header s.field).toInt
  eventLength_nonneg : 0 ≤ (eventLength s.header s.field).toInt
  sum : (blockLength s.header s.field).toInt + (eventLength s.header s.field).toInt = s.packetSize
  malloc : (mallocSize s.header s.field).toNat =
    s.packetSize + if s.header.isReply then 0 else 4
  length_le : (blockLength s.header s.field).toInt ≤ (mallocSize s.header s.field).toNat
  eventLength_le : (eventLength s.header s.field).toInt ≠ 0 →
    36 + (eventLength s.header s.field).toInt ≤ (mallocSize s.header s.field).toNat

theorem fits_of_lt (hsize : s.packetSize < 2 ^ 31) : s.Fits := by
  have hcomputes := computes s.pend s.header s.queue
  have hle : 32 ≤ s.packetSize := le_packetSize
  change Computes s.header s.field s.packetSize at hcomputes
  have hmod : s.packetSize % 2 ^ 32 = s.packetSize := Nat.mod_eq_of_lt (by omega)
  have hmalloc : (mallocSize s.header s.field).toNat =
      s.packetSize + if s.header.isReply then 0 else 4 := by
    rw [hcomputes.malloc, toNat_signExtend_ofNat, hmod, if_pos hsize, Nat.add_zero,
      Nat.mod_eq_of_lt]
    split <;> omega
  cases hreply : s.header.isReply with
  | true =>
    obtain ⟨hblock, hevent⟩ := hcomputes.reply hreply
    rw [toInt_ofNat_32, hmod, if_pos hsize] at hblock
    rw [hreply, if_pos rfl] at hmalloc
    exact ⟨by omega, by omega, by omega, by rw [hmalloc, hreply, if_pos rfl], by omega,
      fun h => absurd hevent h⟩
  | false =>
    obtain ⟨hblock, hevent⟩ := hcomputes.other hreply
    have hmod' : (s.packetSize - 32) % 2 ^ 32 = s.packetSize - 32 := Nat.mod_eq_of_lt (by omega)
    rw [toInt_ofNat_32, hmod', if_pos (by omega)] at hevent
    rw [hreply, if_neg (by decide)] at hmalloc
    exact ⟨by omega, by omega, by omega, by rw [hmalloc, hreply, if_neg (by decide)], by omega,
      fun _ => by omega⟩

/-- A size that is computed exactly. -/
theorem exact_of_lt (hheader : 32 ≤ s.queue.length)
    (hsize : s.packetSize < 2 ^ 31) (memory : Memory) : Exact memory s := by
  have hfits := fits_of_lt hsize
  have hsum := hfits.sum
  refine ⟨fun _ => ⟨hfits.length_pos, hfits.eventLength_nonneg⟩, ?_⟩
  rw [readPacket_eq hheader]
  split
  · rcases readBody_cases { s with conn := s.conn.advance s.header } hfits.length_pos
      hfits.eventLength_nonneg hfits.length_le hfits.eventLength_le with
      ⟨packet, t, hbody, hlength, htook, -⟩ | ⟨⟨t, hbody, herror⟩, -⟩
    · rw [hbody]
      obtain ⟨hbytes, -, ⟨htrue, herror, hdelivered⟩ | ⟨hfalse, herror⟩⟩ :=
        deliver_cases memory t { s.header with body := packet }
      · have heq : t.deliver memory { s.header with body := packet } =
            (true, (t.deliver memory { s.header with body := packet }).2) := Prod.ext htrue rfl
        change s.Ends (some (t.deliver memory { s.header with body := packet }))
        rw [heq]
        refine ⟨packet, by omega, ?_, ?_, hfits.malloc.ge, ?_⟩
        · rw [hbytes]
          exact htook.bytes
        · exact herror.trans htook.hasError
        · rw [htook.delivered] at hdelivered
          exact hdelivered.imp_right fun ⟨r, hr⟩ => ⟨r, _, hr, rfl⟩
      · have heq : t.deliver memory { s.header with body := packet } =
            (false, (t.deliver memory { s.header with body := packet }).2) := Prod.ext hfalse rfl
        change s.Ends (some (t.deliver memory { s.header with body := packet }))
        rw [heq]
        exact herror
    · rw [hbody]
      exact herror
  · exact rfl

/-- A negative size: nobody grants as much memory. -/
theorem exact_of_negative (hheader : 32 ≤ s.queue.length)
    (hsize : 2 ^ 31 ≤ s.packetSize % 2 ^ 32)
    (hroom : s.header.isReply = true ∨ s.packetSize % 2 ^ 32 < 2 ^ 32 - 4) (memory : Memory) :
    Exact memory s := by
  have hmalloc := (computes s.pend s.header s.queue).malloc
  have hlt : s.packetSize % 2 ^ 32 < 2 ^ 32 := Nat.mod_lt _ (by norm_num)
  change (mallocSize s.header s.field).toNat =
    (((BitVec.ofNat 32 s.packetSize).signExtend 64).toNat + _) % _ at hmalloc
  rw [toNat_signExtend_ofNat, if_neg (by omega)] at hmalloc
  have hgrants : memory.grants (mallocSize s.header s.field).toNat = false := by
    refine memory.bounded _ ?_
    rw [hmalloc]
    cases hreply : s.header.isReply with
    | true =>
      simp only [if_true]
      omega
    | false =>
      have hbelow := hroom.resolve_left (by simp [hreply])
      simp only [Bool.false_eq_true, if_false]
      omega
  refine ⟨fun h => absurd h (by simp [hgrants]), ?_⟩
  rw [readPacket_eq hheader, hgrants]
  exact rfl

/-! ### Wrapped sizes -/

/-- All that `malloc` can grant. -/
def generous : Memory where
  grants size := size < 2 ^ 63
  bounded := fun size h => by simpa using h

theorem deliver_generous (s : Input τ) (p : Packet (List UInt8)) :
    (s.deliver generous p).1 = true := by
  have hnode : generous.grants listNodeSize = true := rfl
  unfold deliver
  split
  · rfl
  · rw [if_pos hnode]
  · rw [if_pos hnode]

/-- A server that has sent `n` bytes more. -/
def sent (s : Input τ) (n : ℕ) : Input τ :=
  { s with arrivals := [.ready (List.replicate n 0)] }

theorem le_length_bytes_sent (s : Input τ) (n : ℕ) : n ≤ (s.sent n).bytes.length := by
  have hlength :
      (s.sent n).bytes.length = s.queue.length + (List.replicate n (0 : UInt8) ++ []).length :=
    List.length_append
  rw [hlength, List.append_nil, List.length_replicate]
  omega

/-- Another number of bytes is taken. -/
theorem not_ends_of_ne (hheader : 32 ≤ s.queue.length)
    (hgrants : generous.grants (mallocSize s.header s.field).toNat = true)
    (hlength : 0 < (blockLength s.header s.field).toInt)
    (hpos : 0 ≤ (eventLength s.header s.field).toInt)
    (hfirst : (blockLength s.header s.field).toInt ≤ (mallocSize s.header s.field).toNat)
    (htail : (eventLength s.header s.field).toInt ≠ 0 →
      36 + (eventLength s.header s.field).toInt ≤ (mallocSize s.header s.field).toNat)
    (hne : (blockLength s.header s.field).toInt + (eventLength s.header s.field).toInt ≠
      s.packetSize) : ∃ n, ¬ (s.sent n).Ends ((s.sent n).readPacket generous) := by
  obtain ⟨n, hn⟩ := Int.eq_ofNat_of_zero_le (add_nonneg hlength.le hpos)
  refine ⟨n, fun hends => ?_⟩
  rw [readPacket_eq (s := s.sent n) hheader] at hends
  rw [if_pos (show generous.grants (mallocSize (s.sent n).header (s.sent n).field).toNat = true
    from hgrants)] at hends
  rcases readBody_cases { s.sent n with conn := s.conn.advance s.header } hlength hpos hfirst
    htail with ⟨packet, t, hbody, hpacket, htook, -⟩ | ⟨-, hshort⟩
  · have hbody' : readBody { s.sent n with conn := (s.sent n).conn.advance (s.sent n).header }
        (blockLength (s.sent n).header (s.sent n).field).toInt
        (eventLength (s.sent n).header (s.sent n).field).toInt
        (mallocSize (s.sent n).header (s.sent n).field).toNat = some (some packet, t) := hbody
    rw [hbody'] at hends
    obtain ⟨hbytes, -⟩ := deliver_cases generous t { s.header with body := packet }
    have heq : t.deliver generous { s.header with body := packet } =
        (true, (t.deliver generous { s.header with body := packet }).2) :=
      Prod.ext (deliver_generous t _) rfl
    change Ends (s.sent n) (some (t.deliver generous { s.header with body := packet })) at hends
    rw [heq] at hends
    obtain ⟨packet', hpacket', hsplit, -⟩ := hends
    have htook' : (s.sent n).bytes = packet ++ t.bytes := htook.bytes
    rw [hbytes, htook'] at hsplit
    have hlen := congrArg List.length hsplit
    simp only [List.length_append] at hlen
    change packet'.length = s.packetSize at hpacket'
    omega
  · have hbytes := s.le_length_bytes_sent n
    have hless := hshort (by simp [sent])
    change ((s.sent n).bytes.length : ℤ) < _ at hless
    omega

/-- The call has no defined behaviour. -/
theorem not_ends_of_none (hheader : 32 ≤ s.queue.length)
    (hgrants : generous.grants (mallocSize s.header s.field).toNat = true)
    (hnone : readBody { s with conn := s.conn.advance s.header }
      (blockLength s.header s.field).toInt (eventLength s.header s.field).toInt
      (mallocSize s.header s.field).toNat = none) : ¬ s.Ends (s.readPacket generous) := by
  intro hends
  rw [readPacket_eq hheader, if_pos hgrants, hnone] at hends
  exact hends

theorem readBody_of_small {length eventlength : ℤ} {size : ℕ} (h : (size : ℤ) < length) :
    s.readBody length eventlength size = none := by
  rw [readBody, if_pos h]

/-- Nothing checks the second length. -/
theorem readBody_of_negative {length eventlength : ℤ} {size : ℕ} (hlength : 0 < length)
    (hqueue : length ≤ s.queue.length) (hneg : eventlength < 0) :
    s.readBody length eventlength size = none := by
  rw [readBody]
  split
  · rfl
  · rcases readBlock_cases s hlength with ⟨bytes, t, hread, -⟩ | ⟨⟨t, hread, -⟩, -⟩
    · have htail : t.readTail eventlength size = none := by
        rw [readTail, if_neg hneg.ne]
        split
        · rfl
        · rw [readBlock, if_pos hneg]
      rw [hread]
      simp [htail]
    · -- the queue holds all of it
      have hmin : min s.queue.length length.toNat = length.toNat := by omega
      simp [readBlock, hmin, not_lt.mpr hlength.le, hlength.ne'] at hread

/-- The other sizes: a buffer is granted, and not what the server has sent is read into it. -/
theorem exists_not_exact (hheader : 32 ≤ s.queue.length)
    (h : ¬ FitsInt s.header s.packetSize) :
    ∃ arrivals, ¬ Exact generous { s with arrivals := arrivals } := by
  obtain ⟨hlarge, hwrapped⟩ := not_or.mp h
  have hcomputes := computes s.pend s.header s.queue
  change Computes s.header s.field s.packetSize at hcomputes
  have hmalloc := hcomputes.malloc
  rw [toNat_signExtend_ofNat] at hmalloc
  have hgrants : (mallocSize s.header s.field).toNat < 2 ^ 63 →
      generous.grants (mallocSize s.header s.field).toNat = true := decide_eq_true
  cases hreply : s.header.isReply with
  | true =>
    have hlow : s.packetSize % 2 ^ 32 < 2 ^ 31 := by
      by_contra hge
      exact hwrapped ⟨by omega, .inl hreply⟩
    obtain ⟨hblock, hevent⟩ := hcomputes.reply hreply
    rw [toInt_ofNat_32, if_pos hlow] at hblock
    rw [hreply, if_pos hlow, if_pos rfl] at hmalloc
    by_cases hzero : s.packetSize % 2 ^ 32 = 0
    · -- the first call is for nothing
      refine ⟨s.arrivals, fun hexact => ?_⟩
      have hpos : 0 < (blockLength s.header s.field).toInt :=
        (hexact.positive (hgrants (by omega))).1
      omega
    · obtain ⟨n, hn⟩ := not_ends_of_ne hheader (hgrants (by omega)) (by omega) (by omega)
        (by omega) (fun hne => absurd hevent hne) (by omega)
      exact ⟨_, fun hexact => hn hexact.ends⟩
  | false =>
    obtain ⟨hblock, hevent⟩ := hcomputes.other hreply
    rw [toInt_ofNat_32] at hevent
    rw [hreply] at hmalloc
    simp only [Bool.false_eq_true, if_false] at hmalloc
    obtain ⟨words, hwords, -⟩ :=
      packetSize_eq s.pend s.header s.queue
    change s.packetSize = 32 + 4 * words at hwords
    have hsub : s.packetSize - 32 = 4 * words := by omega
    rw [hsub] at hevent
    have hrange : s.packetSize % 2 ^ 32 < 2 ^ 31 ∨ s.packetSize % 2 ^ 32 = 2 ^ 32 - 4 := by
      by_contra hmiddle
      exact hwrapped ⟨by omega, .inr (by omega)⟩
    rcases hrange with hlow | hlast
    · rw [if_pos hlow] at hmalloc
      rcases Nat.lt_or_ge (s.packetSize % 2 ^ 32) 32 with hshort | hlong
      · rw [if_neg (by omega)] at hevent
        have hqueue : (blockLength s.header s.field).toInt ≤ s.queue.length := by omega
        have hnone : readBody { s with conn := s.conn.advance s.header }
            (blockLength s.header s.field).toInt (eventLength s.header s.field).toInt
            (mallocSize s.header s.field).toNat = none :=
          readBody_of_negative (by omega) hqueue (by omega)
        exact ⟨s.arrivals, fun hexact => not_ends_of_none hheader (hgrants (by omega)) hnone
          hexact.ends⟩
      · rw [if_pos (by omega)] at hevent
        obtain ⟨n, hn⟩ := not_ends_of_ne hheader (hgrants (by omega)) (by omega) (by omega)
          (by omega) (fun _ => by omega) (by omega)
        exact ⟨_, fun hexact => hn hexact.ends⟩
    · rw [if_neg (by omega)] at hmalloc
      have hnone : readBody { s with conn := s.conn.advance s.header }
          (blockLength s.header s.field).toInt (eventLength s.header s.field).toInt
          (mallocSize s.header s.field).toNat = none := readBody_of_small (by omega)
      exact ⟨s.arrivals, fun hexact => not_ends_of_none hheader (hgrants (by omega)) hnone
        hexact.ends⟩

/-! ### The result -/

/-- **Packet sizes.** Whatever can be allocated and whatever arrives, `read_packet` takes exactly
the packet at hand or shuts the connection down, if and only if its size survives `int`
arithmetic. -/
theorem exact_iff (s : Input τ) (hheader : 32 ≤ s.queue.length) :
    (∀ memory arrivals, Exact memory { s with arrivals := arrivals }) ↔
      FitsInt s.header s.packetSize := by
  constructor
  · intro hexact
    by_contra h
    obtain ⟨arrivals, hnot⟩ := exists_not_exact hheader h
    exact hnot (hexact generous arrivals)
  · rintro (hlt | ⟨hnegative, hroom⟩) memory arrivals
    · exact exact_of_lt (s := { s with arrivals := arrivals }) hheader hlt memory
    · exact exact_of_negative (s := { s with arrivals := arrivals }) hheader hnegative hroom memory

/-- A connection with these bytes in its queue. -/
def ofQueue (queue : List UInt8) : Input Empty where
  conn := XcbIn.init
  hasError := false
  queue := queue
  arrivals := []
  delivered := []

/-- The header of a GenericEvent with a length of `0x3fffffff` words. -/
def longEvent : List UInt8 :=
  [35, 0, 0, 0, 0xff, 0xff, 0xff, 0x3f] ++ List.replicate 24 0

/-- A reply of 40 bytes. -/
theorem exact_reply : Exact generous
    { ofQueue ([1, 0, 0, 0, 2, 0, 0, 0] ++ List.replicate 24 0) with
      arrivals := [.ready [0, 0, 0, 0, 0, 0, 0, 0]] } :=
  (exact_iff (ofQueue ([1, 0, 0, 0, 2, 0, 0, 0] ++ List.replicate 24 0)) (by decide)).mpr
    (by decide) generous [.ready [0, 0, 0, 0, 0, 0, 0, 0]]

/-- **A length that wraps.** The buffer is 32 bytes large, and the second read is for `-4` bytes. -/
theorem not_exact_longEvent : ¬ Exact generous (ofQueue longEvent) := by
  intro hexact
  have hends := hexact.ends
  have hnone : (ofQueue longEvent).readPacket generous = none := by decide
  rw [hnone] at hends
  exact hends

end Input

end Xcb
