import Xcb.History

/-!
# What the server has sent

The packets of a session, from the first one ever sent to the last, whether they have been read or
are still on their way. Reading a packet only moves it from one part to the other, so what the
server guarantees is said once, about the whole list, and holds whatever the client does.

## Main definitions

* `Session.packets` — all packets, in order
* `Session.Served` — what an in-order server guarantees about them
* `Session.lastRead`, `Session.lastCompleted` — the number of the request read last, and of the last
  one that has got all its answers
* `Session.Stamped` — `c->out.request`, `request_read` and `request_completed` are the true numbers

## Main results

* `served_of_reach` — the guarantee, for every run
* `stamped_step` — as long as no packet is more than 65535 above the last one, numbers stay true
-/

namespace Xcb

/-- The packet of a `read`. -/
def Observation.read? : Observation → Option (Packet Stamp)
  | .read p => some p
  | _ => none

/-- An answer to a request. -/
def Packet.isAnswer {β : Type} (p : Packet β) : Bool := p.isReply || p.isError

theorem isKeymapNotify_of_isAnswer {p : Packet Stamp} (h : p.isAnswer = true) :
    p.isKeymapNotify = false := by
  simp only [Packet.isAnswer, Packet.isReply, Packet.isError, Bool.or_eq_true, beq_iff_eq] at h
  rcases h with h | h
  · simp only [Packet.isKeymapNotify, h]
    decide
  · simp only [Packet.isKeymapNotify, h]
    decide

/-- The numbers of the packets that carry one. -/
def stamps (packets : List (Packet Stamp)) : List ℕ :=
  (packets.filter fun p => !p.isKeymapNotify).map fun p => p.body.number

theorem stamps_append (ps qs : List (Packet Stamp)) :
    stamps (ps ++ qs) = stamps ps ++ stamps qs := by
  simp [stamps]

theorem mem_stamps {ps : List (Packet Stamp)} {p : Packet Stamp} (hp : p ∈ ps)
    (hkey : p.isKeymapNotify = false) : p.body.number ∈ stamps ps :=
  List.mem_map.mpr ⟨p, List.mem_filter.mpr ⟨hp, by rw [hkey]; rfl⟩, rfl⟩

namespace Session

variable {s t : Session}

/-- The packets read so far. -/
def reads (s : Session) : List (Packet Stamp) := s.log.filterMap Observation.read?

/-- All packets the server has sent. -/
def packets (s : Session) : List (Packet Stamp) := s.reads ++ s.wire

/-- The true number of the request read last. -/
def lastRead (s : Session) : ℕ := (stamps s.reads).getLastD 0

/-- Has the error of request `n` been read? -/
def errorRead (s : Session) (n : ℕ) : Bool :=
  s.reads.any fun p => p.isError && p.body.number == n

/-- The true number of the last request that has got all its answers: the last one read only if
that was an error. -/
def lastCompleted (s : Session) : ℕ :=
  if s.errorRead s.lastRead then s.lastRead else s.lastRead - 1

/-- Request `n` will fail. -/
def Fails (s : Session) (n : ℕ) : Prop := ∃ r, s.request? n = some r ∧ r.fails = true

theorem Fails.append {new : List Request} (h : t.requests = s.requests ++ new) {n : ℕ}
    (hn : s.Fails n) : t.Fails n := by
  obtain ⟨r, hr, hfails⟩ := hn
  exact ⟨r, by rw [request?_append_left h (le_length_of_request? hr).2, hr], hfails⟩

theorem Fails.of_append {new : List Request} (h : t.requests = s.requests ++ new) {n : ℕ}
    (hle : n ≤ s.requests.length) (hn : t.Fails n) : s.Fails n := by
  obtain ⟨r, hr, hfails⟩ := hn
  exact ⟨r, by rw [← request?_append_left h hle, hr], hfails⟩

/-! ### The guarantee -/

/-- What an in-order server guarantees about its packets. -/
structure Served (s : Session) : Prop where
  handled_le : s.server.handled ≤ s.requests.length
  sorted : s.packets.Pairwise fun p q => p.body.number ≤ q.body.number
  le_handled : ∀ p ∈ s.packets, p.body.number ≤ s.server.handled
  sequence : ∀ p ∈ s.packets, p.isKeymapNotify = false → p.sequence = BitVec.ofNat 16 p.body.number
  /-- An error is the last answer to its request. -/
  final : s.packets.Pairwise fun p q =>
    p.isError = true → q.isAnswer = true → p.body.number < q.body.number
  errored : ∀ p ∈ s.packets, p.isError = true → p.body.number = s.server.handled →
    s.server.errored = true
  fails : s.server.errored = true → s.Fails s.server.handled
  reply : ∀ p ∈ s.packets, p.isReply = true → s.Nonvoid p.body.number
  error : ∀ p ∈ s.packets, p.isError = true → s.Fails p.body.number
  /-- A request that asked for an answer has got one before the next request is taken. -/
  answered : ∀ n, s.Nonvoid n →
    (n < s.server.handled ∨
      n = s.server.handled ∧ (s.server.replied = true ∨ s.server.errored = true)) →
    ∃ p ∈ s.packets, p.isAnswer = true ∧ p.body.number = n
  /-- A request that failed has got an error. -/
  failed : ∀ n, s.Fails n →
    (n < s.server.handled ∨ n = s.server.handled ∧ s.server.errored = true) →
    ∃ p ∈ s.packets, p.isError = true ∧ p.body.number = n

theorem served_init (size : ℕ) (maximum : BitVec 16) : (Session.init size maximum).Served := by
  have hnone : ∀ n, (Session.init size maximum).request? n = none := by
    intro n
    simp [Session.init, Session.request?]
  refine ⟨Nat.le_refl 0, .nil, ?_, ?_, .nil, ?_, fun h => absurd h Bool.false_ne_true, ?_, ?_, ?_,
    ?_⟩
  iterate 5
    intro p hp
    cases hp
  all_goals
    rintro n ⟨r, hr, -⟩
    rw [hnone] at hr
    cases hr

/-- Whatever the client does, the server has sent what it has sent. -/
theorem Served.of_client (h : s.Served) {new : List Request}
    (hnew : t.requests = s.requests ++ new) (hserver : t.server = s.server)
    (hpackets : t.packets = s.packets) : t.Served := by
  have hlen : s.requests.length ≤ t.requests.length := by
    rw [hnew, List.length_append]
    exact Nat.le_add_right _ _
  refine ⟨?_, ?_, ?_, ?_, ?_, ?_, ?_, ?_, ?_, ?_, ?_⟩
  · rw [hserver]
    exact h.handled_le.trans hlen
  · rw [hpackets]
    exact h.sorted
  · rw [hpackets, hserver]
    exact h.le_handled
  · rw [hpackets]
    exact h.sequence
  · rw [hpackets]
    exact h.final
  · rw [hpackets, hserver]
    exact h.errored
  · rw [hserver]
    exact fun herrored => (h.fails herrored).append hnew
  · rw [hpackets]
    exact fun p hp hreply => (h.reply p hp hreply).append hnew
  · rw [hpackets]
    exact fun p hp herror => (h.error p hp herror).append hnew
  · rw [hpackets, hserver]
    intro n hn hans
    have hle : n ≤ s.requests.length := by
      have := h.handled_le
      omega
    exact h.answered n (hn.of_append hnew hle) hans
  · rw [hpackets, hserver]
    intro n hn hans
    have hle : n ≤ s.requests.length := by
      have := h.handled_le
      omega
    exact h.failed n (hn.of_append hnew hle) hans

/-- A request that asked for an answer has one when the server goes on. -/
theorem answered_of_nonvoid (hans : s.answered = true) (hn : s.Nonvoid s.server.handled) :
    s.server.replied = true ∨ s.server.errored = true := by
  obtain ⟨r, hr, hvoid⟩ := hn
  simp only [Session.answered, hr, hvoid, Bool.false_or] at hans
  split at hans
  · exact .inr hans
  · exact .inl hans

theorem errored_of_fails (hans : s.answered = true) (hn : s.Fails s.server.handled) :
    s.server.errored = true := by
  obtain ⟨r, hr, hfails⟩ := hn
  simpa only [Session.answered, hr, hfails, if_true] using hans

/-- The server takes the next request. -/
theorem Served.handle (h : s.Served) (hhanded : s.handed (s.server.handled + 1) = true)
    (hans : s.answered = true) : s.handle.Served := by
  have hle : s.server.handled + 1 ≤ s.requests.length := by
    simp only [Session.handed, Bool.and_eq_true, decide_eq_true_eq] at hhanded
    exact hhanded.1
  refine ⟨hle, h.sorted, ?_, h.sequence, h.final, ?_, fun h => absurd h Bool.false_ne_true, h.reply,
    h.error, ?_, ?_⟩
  · exact fun p hp => Nat.le_succ_of_le (h.le_handled p hp)
  · intro p hp _ heq
    have hlt : p.body.number < s.server.handled + 1 := Nat.lt_succ_of_le (h.le_handled p hp)
    exact absurd heq (Nat.ne_of_lt hlt)
  · rintro n hn (hlt | ⟨-, hfalse⟩)
    · refine h.answered n hn ?_
      rcases Nat.lt_succ_iff_lt_or_eq.mp hlt with hbefore | rfl
      · exact .inl hbefore
      · exact .inr ⟨rfl, answered_of_nonvoid hans hn⟩
    · simp [Session.handle] at hfalse
  · rintro n hn (hlt | ⟨-, hfalse⟩)
    · refine h.failed n hn ?_
      rcases Nat.lt_succ_iff_lt_or_eq.mp hlt with hbefore | rfl
      · exact .inl hbefore
      · exact .inr ⟨rfl, errored_of_fails hans hn⟩
    · simp [Session.handle] at hfalse

theorem packets_emit (s : Session) (p : Packet Stamp) :
    (s.emit p).packets = s.packets ++ [p] := (List.append_assoc _ _ _).symm

theorem nonvoid_of_canEmit {p : Packet Stamp} (hcan : s.canEmit p = true)
    (hreply : p.isReply = true) :
    s.Nonvoid s.server.handled ∧ s.server.errored = false := by
  simp only [Session.canEmit, hreply, if_true, Bool.and_eq_true, Option.any_eq_true,
    Bool.not_eq_true'] at hcan
  exact ⟨hcan.1, hcan.2⟩

theorem fails_of_canEmit {p : Packet Stamp} (hcan : s.canEmit p = true)
    (herror : p.isError = true) : s.Fails s.server.handled ∧ s.server.errored = false := by
  have hreply : p.isReply = false := by
    simp only [Packet.isError, beq_iff_eq] at herror
    simp only [Packet.isReply, herror]
    decide
  simp only [Session.canEmit, hreply, herror, if_true, Bool.false_eq_true, if_false,
    Bool.and_eq_true, Option.any_eq_true, Bool.not_eq_true'] at hcan
  exact ⟨hcan.1, hcan.2⟩

theorem errored_of_canEmit {p : Packet Stamp} (hcan : s.canEmit p = true)
    (hanswer : p.isAnswer = true) : s.server.errored = false := by
  rcases (Bool.or_eq_true _ _).mp hanswer with hreply | herror
  · exact (nonvoid_of_canEmit hcan hreply).2
  · exact (fails_of_canEmit hcan herror).2

/-- The server sends a packet. -/
theorem Served.emit (h : s.Served) {p : Packet Stamp} (hnumber : p.body.number = s.server.handled)
    (hcan : s.canEmit p = true)
    (hseq : p.isKeymapNotify = true ∨ p.sequence = BitVec.ofNat 16 s.server.handled) :
    (s.emit p).Served := by
  have hmem : ∀ q, q ∈ (s.emit p).packets ↔ q ∈ s.packets ∨ q = p := by
    intro q
    rw [packets_emit, List.mem_append, List.mem_singleton]
  refine ⟨h.handled_le, ?_, ?_, ?_, ?_, ?_, ?_, ?_, ?_, ?_, ?_⟩
  · rw [packets_emit]
    refine List.pairwise_append.mpr ⟨h.sorted, List.pairwise_singleton _ _, ?_⟩
    intro q hq r hr
    rw [List.mem_singleton.mp hr, hnumber]
    exact h.le_handled q hq
  · intro q hq
    rcases (hmem q).mp hq with hq | rfl
    · exact h.le_handled q hq
    · exact hnumber.le
  · intro q hq hkey
    rcases (hmem q).mp hq with hq | rfl
    · exact h.sequence q hq hkey
    · rw [hnumber]
      exact hseq.resolve_left (by simp [hkey])
  · rw [packets_emit]
    refine List.pairwise_append.mpr ⟨h.final, List.pairwise_singleton _ _, ?_⟩
    intro q hq r hr herror hanswer
    rw [List.mem_singleton.mp hr] at hanswer ⊢
    have hne : q.body.number ≠ s.server.handled := by
      intro heq
      have := h.errored q hq herror heq
      rw [errored_of_canEmit hcan hanswer] at this
      cases this
    rw [hnumber]
    exact lt_of_le_of_ne (h.le_handled q hq) hne
  · intro q hq herror heq
    change (s.server.errored || p.isError) = true
    rcases (hmem q).mp hq with hq | rfl
    · rw [h.errored q hq herror heq, Bool.true_or]
    · rw [herror, Bool.or_true]
  · intro herrored
    change (s.server.errored || p.isError) = true at herrored
    rcases (Bool.or_eq_true _ _).mp herrored with herrored | herror
    · exact h.fails herrored
    · exact (fails_of_canEmit hcan herror).1
  · intro q hq hreply
    rcases (hmem q).mp hq with hq | rfl
    · exact h.reply q hq hreply
    · rw [hnumber]
      exact (nonvoid_of_canEmit hcan hreply).1
  · intro q hq herror
    rcases (hmem q).mp hq with hq | rfl
    · exact h.error q hq herror
    · rw [hnumber]
      exact (fails_of_canEmit hcan herror).1
  · rintro n hn hans
    have hold : ∀ q ∈ s.packets, q ∈ (s.emit p).packets := fun q hq => (hmem q).mpr (.inl hq)
    by_cases hbefore : n < s.server.handled ∨
        n = s.server.handled ∧ (s.server.replied = true ∨ s.server.errored = true)
    · obtain ⟨q, hq, hqn⟩ := h.answered n hn hbefore
      exact ⟨q, hold q hq, hqn⟩
    · rcases hans with hlt | ⟨heq, hboth⟩
      · exact absurd (.inl hlt) hbefore
      · change (s.server.replied || p.isReply) = true ∨ (s.server.errored || p.isError) = true
          at hboth
        refine ⟨p, (hmem p).mpr (.inr rfl), ?_, hnumber.trans heq.symm⟩
        have hnot : ¬ (s.server.replied = true ∨ s.server.errored = true) :=
          fun hor => hbefore (.inr ⟨heq, hor⟩)
        simp only [not_or, Bool.not_eq_true] at hnot
        simpa only [hnot.1, hnot.2, Bool.false_or, Packet.isAnswer, Bool.or_eq_true] using hboth
  · rintro n hn hans
    by_cases hbefore : n < s.server.handled ∨ n = s.server.handled ∧ s.server.errored = true
    · obtain ⟨q, hq, hqn⟩ := h.failed n hn hbefore
      exact ⟨q, (hmem q).mpr (.inl hq), hqn⟩
    · rcases hans with hlt | ⟨heq, herr⟩
      · exact absurd (.inl hlt) hbefore
      · change (s.server.errored || p.isError) = true at herr
        refine ⟨p, (hmem p).mpr (.inr rfl), ?_, hnumber.trans heq.symm⟩
        have hnot : ¬ s.server.errored = true := fun hor => hbefore (.inr ⟨heq, hor⟩)
        rw [Bool.not_eq_true] at hnot
        simpa only [hnot, Bool.false_or] using herr

/-! ### What the other steps leave alone -/

theorem reads_append (log : List Observation) (p : Packet Stamp) :
    (log ++ [Observation.read p]).filterMap Observation.read? =
      log.filterMap Observation.read? ++ [p] := by
  rw [List.filterMap_append]
  rfl

theorem reads_read (s : Session) (p : Packet Stamp) (wire : List (Packet Stamp)) :
    (s.read p wire).reads = s.reads ++ [p] := reads_append s.log p

/-- Reading moves a packet from the wire to the packets read. -/
theorem packets_read {p : Packet Stamp} {wire : List (Packet Stamp)} (hwire : s.wire = p :: wire) :
    (s.read p wire).packets = s.packets := by
  rw [packets, reads_read, packets, hwire, List.append_assoc]
  rfl

theorem reads_poll (s : Session) (cookie : ℕ) : (s.poll cookie).reads = s.reads := by
  simp [reads, Session.poll, Observation.read?]

theorem reads_getEvent (s : Session) : s.getEvent.reads = s.reads := by
  simp [reads, Session.getEvent, Observation.read?]

/-- **The server keeps its guarantee**, whatever the client does. -/
theorem served_step {a : Action} (h : s.Served) (hstep : s.step a = some t) : t.Served := by
  cases step_cases hstep with
  | send =>
    rw [number_eq]
    exact h.of_client rfl rfl rfl
  | writev => exact h.of_client rfl rfl rfl
  | poll => exact h.of_client (List.append_nil _).symm rfl (by rw [packets, reads_poll]; rfl)
  | getEvent =>
    exact h.of_client (List.append_nil _).symm rfl (by rw [packets, reads_getEvent]; rfl)
  | handle hhanded hans => exact h.handle hhanded hans
  | emit hcan hseq => exact h.emit rfl hcan hseq
  | read hwire => exact h.of_client (List.append_nil _).symm rfl (packets_read hwire)
  | _ => exact h.of_client (List.append_nil _).symm rfl rfl

theorem served_of_reach {ok : Session → Action → Prop} {size : ℕ} {maximum : BitVec 16}
    (h : Transition.Reach Session.step ok (Session.init size maximum) s) : s.Served :=
  h.invariant (fun _ _ _ h _ hstep => served_step h hstep) (served_init size maximum)

/-! ### The number read last -/

/-- The number read last, once `p` is. -/
def nextRead (last : ℕ) (p : Packet Stamp) : ℕ := if p.isKeymapNotify then last else p.body.number

theorem lastRead_read (s : Session) (p : Packet Stamp) (wire : List (Packet Stamp)) :
    (s.read p wire).lastRead = nextRead s.lastRead p := by
  rw [lastRead, reads_read, stamps_append, nextRead]
  cases hkey : p.isKeymapNotify <;> simp [stamps, hkey, lastRead]

theorem lastRead_cases (s : Session) :
    s.lastRead = 0 ∨ ∃ q ∈ s.reads, q.isKeymapNotify = false ∧ q.body.number = s.lastRead := by
  rcases List.eq_nil_or_concat (stamps s.reads) with hnil | ⟨ns, n, hconcat⟩
  · exact .inl (by rw [lastRead, hnil]; rfl)
  · right
    have hlast : s.lastRead = n := by simp [lastRead, hconcat]
    have hmem : n ∈ stamps s.reads := by simp [hconcat]
    obtain ⟨q, hq, hn⟩ := List.mem_map.mp hmem
    obtain ⟨hq, hkey⟩ := List.mem_filter.mp hq
    exact ⟨q, hq, by simpa using hkey, hn.trans hlast.symm⟩

/-- Packets on the wire are not older than the ones read. -/
theorem Served.lastRead_le (h : s.Served) {p : Packet Stamp} (hp : p ∈ s.wire) :
    s.lastRead ≤ p.body.number := by
  rcases s.lastRead_cases with hzero | ⟨q, hq, -, hlast⟩
  · omega
  · rw [← hlast]
    exact (List.pairwise_append.mp h.sorted).2.2 q hq p hp

/-- And the ones read are not younger than the last one. -/
theorem Served.le_lastRead (h : s.Served) {q : Packet Stamp} (hq : q ∈ s.reads)
    (hkey : q.isKeymapNotify = false) : q.body.number ≤ s.lastRead := by
  have hsorted : (stamps s.reads).Pairwise (· ≤ ·) :=
    List.pairwise_map.mpr ((List.pairwise_append.mp h.sorted).1.filter _)
  have hmem := mem_stamps hq hkey
  rw [lastRead]
  rcases List.eq_nil_or_concat (stamps s.reads) with hnil | ⟨ns, n, hconcat⟩
  · rw [hnil] at hmem
    cases hmem
  · rw [hconcat, List.concat_eq_append] at hmem hsorted ⊢
    rw [List.getLastD_concat]
    rcases List.mem_append.mp hmem with hmem | hmem
    · exact (List.pairwise_append.mp hsorted).2.2 _ hmem n (List.mem_singleton.mpr rfl)
    · exact (List.mem_singleton.mp hmem).le

theorem Served.lastRead_le_handled (h : s.Served) : s.lastRead ≤ s.server.handled := by
  rcases s.lastRead_cases with hzero | ⟨q, hq, -, hlast⟩
  · omega
  · rw [← hlast]
    exact h.le_handled q (List.mem_append_left _ hq)

/-- An answer to a later request than the last one read is still on the wire. -/
theorem Served.mem_wire (h : s.Served) {p : Packet Stamp} (hp : p ∈ s.packets)
    (hkey : p.isKeymapNotify = false) (hlt : s.lastRead < p.body.number) : p ∈ s.wire := by
  rcases List.mem_append.mp hp with hread | hwire
  · have := h.le_lastRead hread hkey
    omega
  · exact hwire

/-! ### True numbers -/

/-- The counters stand for the numbers they should. -/
structure Stamped (s : Session) : Prop where
  served : s.Served
  request : s.conn.out.request = BitVec.ofNat 64 s.requests.length
  requestRead : s.conn.inp.requestRead = BitVec.ofNat 64 s.lastRead
  requestCompleted : s.conn.inp.requestCompleted = BitVec.ofNat 64 s.lastCompleted

/-- The counter and the number it stands for. -/
theorem Stamped.toNat_requestRead (h : s.Stamped) (hlt : s.requests.length < 2 ^ 64) :
    s.conn.inp.requestRead.toNat = s.lastRead := by
  have hle := h.served.lastRead_le_handled.trans h.served.handled_le
  rw [h.requestRead, BitVec.toNat_ofNat, Nat.mod_eq_of_lt (by omega)]

/-- The next packet is at most 65535 above the last one. -/
def Near (s : Session) (a : Action) : Prop :=
  a = .read → ∀ p ∈ s.wire.head?, p.isKeymapNotify = false → p.body.number < s.lastRead + 2 ^ 16

theorem stamped_init (size : ℕ) (maximum : BitVec 16) : (Session.init size maximum).Stamped :=
  ⟨served_init size maximum, rfl, rfl, rfl⟩

/-- The number `read_packet` gives to the next packet. -/
theorem Stamped.widen (h : s.Stamped) {p : Packet Stamp} (hp : p ∈ s.wire)
    (hkey : p.isKeymapNotify = false) (hlt : p.body.number < s.lastRead + 2 ^ 16) :
    widenSequence s.conn.inp.requestRead p.sequence = BitVec.ofNat 64 p.body.number := by
  rw [h.requestRead, h.served.sequence p (List.mem_append_right _ hp) hkey,
    widenSequence_ofNat (h.served.lastRead_le hp) hlt]

theorem requestRead_readPacket (c : XcbIn Empty Stamp) (p : Packet Stamp) :
    (c.readPacket p).1.requestRead =
      if p.isKeymapNotify then c.requestRead else widenSequence c.requestRead p.sequence := by
  rw [XcbIn.readPacket_fst]
  cases hkey : p.isKeymapNotify with
  | true => simp [XcbIn.advance_of_keymapNotify _ _ hkey]
  | false => simp [XcbIn.advance_of_not_keymapNotify _ _ hkey, XcbIn.advanceRead]

theorem requestCompleted_readPacket (c : XcbIn Empty Stamp) (p : Packet Stamp) :
    (c.readPacket p).1.requestCompleted =
      if p.isKeymapNotify then c.requestCompleted
      else if p.isError then widenSequence c.requestRead p.sequence
      else if widenSequence c.requestRead p.sequence ≠ c.requestRead then
        widenSequence c.requestRead p.sequence - 1
      else c.requestCompleted := by
  rw [XcbIn.readPacket_fst]
  cases hkey : p.isKeymapNotify with
  | true => simp [XcbIn.advance_of_keymapNotify _ _ hkey]
  | false => simp [XcbIn.advance_of_not_keymapNotify _ _ hkey, XcbIn.advanceRead]

theorem errorRead_iff {n : ℕ} :
    s.errorRead n = true ↔ ∃ p ∈ s.reads, p.isError = true ∧ p.body.number = n := by
  simp [errorRead]

theorem errorRead_read (s : Session) (p : Packet Stamp) (wire : List (Packet Stamp)) (n : ℕ) :
    (s.read p wire).errorRead n = (s.errorRead n || p.isError && p.body.number == n) := by
  simp [errorRead, reads_read]

/-- No error of a later request has been read. -/
theorem Served.errorRead_of_lt (h : s.Served) {n : ℕ} (hlt : s.lastRead < n) :
    s.errorRead n = false := by
  rw [← Bool.not_eq_true, errorRead_iff]
  rintro ⟨p, hp, herror, rfl⟩
  have hanswer : p.isAnswer = true := by rw [Packet.isAnswer, herror, Bool.or_true]
  have := h.le_lastRead hp (isKeymapNotify_of_isAnswer hanswer)
  omega

theorem lastRead_of_reads (hreads : t.reads = s.reads) : t.lastRead = s.lastRead := by
  rw [lastRead, hreads, lastRead]

theorem lastCompleted_of_reads (hreads : t.reads = s.reads) :
    t.lastCompleted = s.lastCompleted := by
  rw [lastCompleted, lastRead_of_reads hreads, errorRead, hreads]
  rfl

theorem lastCompleted_le (s : Session) : s.lastCompleted ≤ s.lastRead := by
  unfold lastCompleted
  split <;> omega

theorem lastRead_le_succ (s : Session) : s.lastRead ≤ s.lastCompleted + 1 := by
  unfold lastCompleted
  split <;> omega

theorem lastCompleted_read_of_keymapNotify (s : Session) {p : Packet Stamp}
    (wire : List (Packet Stamp)) (hkey : p.isKeymapNotify = true) :
    (s.read p wire).lastCompleted = s.lastCompleted := by
  have hlast : (s.read p wire).lastRead = s.lastRead := by
    rw [lastRead_read, nextRead, hkey, if_pos rfl]
  have herror : p.isError = false := by
    by_contra herror
    rw [Bool.not_eq_false] at herror
    have hanswer : p.isAnswer = true := by rw [Packet.isAnswer, herror, Bool.or_true]
    rw [isKeymapNotify_of_isAnswer hanswer] at hkey
    cases hkey
  rw [lastCompleted, lastCompleted, hlast, errorRead_read, herror, Bool.false_and, Bool.or_false]

/-- The last request with all its answers, once a packet with a number is read. -/
theorem Served.lastCompleted_read (h : s.Served) {p : Packet Stamp} {wire : List (Packet Stamp)}
    (hwire : s.wire = p :: wire) (hkey : p.isKeymapNotify = false) :
    (s.read p wire).lastCompleted =
      if p.isError then p.body.number
      else if p.body.number ≠ s.lastRead then p.body.number - 1 else s.lastCompleted := by
  have hle : s.lastRead ≤ p.body.number := h.lastRead_le (by rw [hwire]; exact List.mem_cons_self)
  have hlast : (s.read p wire).lastRead = p.body.number := by
    rw [lastRead_read, nextRead, hkey, if_neg Bool.false_ne_true]
  rw [lastCompleted, hlast, errorRead_read]
  by_cases herror : p.isError = true
  · simp [herror]
  · rw [Bool.not_eq_true] at herror
    by_cases hsame : p.body.number = s.lastRead
    · simp [herror, hsame, lastCompleted]
    · simp [herror, hsame, h.errorRead_of_lt (lt_of_le_of_ne hle (Ne.symm hsame))]

theorem Stamped.read (h : s.Stamped) {p : Packet Stamp} {wire : List (Packet Stamp)}
    (hwire : s.wire = p :: wire)
    (hlt : p.isKeymapNotify = false → p.body.number < s.lastRead + 2 ^ 16) :
    (s.read p wire).Stamped := by
  have hp : p ∈ s.wire := by
    rw [hwire]
    exact List.mem_cons_self
  refine ⟨h.served.of_client (List.append_nil _).symm rfl (packets_read hwire), h.request, ?_, ?_⟩
  · rw [lastRead_read, nextRead]
    change (s.conn.inp.readPacket p).1.requestRead = _
    rw [requestRead_readPacket]
    cases hkey : p.isKeymapNotify with
    | true => exact h.requestRead
    | false => exact h.widen hp hkey (hlt hkey)
  · change (s.conn.inp.readPacket p).1.requestCompleted = _
    rw [requestCompleted_readPacket]
    cases hkey : p.isKeymapNotify with
    | true => rw [if_pos rfl, h.requestCompleted, s.lastCompleted_read_of_keymapNotify wire hkey]
    | false =>
      have hle := h.served.lastRead_le hp
      have hnear := hlt hkey
      rw [h.served.lastCompleted_read hwire hkey, h.widen hp hkey hnear, h.requestRead,
        h.requestCompleted, if_neg Bool.false_ne_true]
      by_cases hsame : p.body.number = s.lastRead
      · rw [hsame]
        simp only [ne_eq, not_true_eq_false, if_false]
        split <;> rfl
      · have hne : BitVec.ofNat 64 p.body.number ≠ BitVec.ofNat 64 s.lastRead := fun heq =>
          hsame ((Serial.ofNat_inj (by omega) (by omega)).mp heq)
        rw [if_pos hne, if_pos hsame, ofNat_sub_one (by omega)]
        split <;> rfl

/-- Steps that read nothing. -/
theorem Stamped.of_reads (h : s.Stamped) (ht : t.Served)
    (hrequest : t.conn.out.request = BitVec.ofNat 64 t.requests.length)
    (hread : t.conn.inp.requestRead = s.conn.inp.requestRead)
    (hcompleted : t.conn.inp.requestCompleted = s.conn.inp.requestCompleted)
    (hreads : t.reads = s.reads) : t.Stamped := by
  refine ⟨ht, hrequest, ?_, ?_⟩
  · rw [hread, lastRead_of_reads hreads]
    exact h.requestRead
  · rw [hcompleted, lastCompleted_of_reads hreads]
    exact h.requestCompleted

/-- **Numbers stay true** while packets are close together. -/
theorem stamped_step {a : Action} (h : s.Stamped) (hnear : Near s a) (hstep : s.step a = some t) :
    t.Stamped := by
  have hserved := served_step h.served hstep
  cases step_cases hstep with
  | send =>
    refine h.of_reads hserved ?_ ?_ ?_ ?_
    · rw [number_eq, numberRequest_fst]
      change s.conn.out.request + BitVec.ofNat 64 _ = BitVec.ofNat 64 (List.length (_ ++ _))
      rw [h.request, ← BitVec.ofNat_add, List.length_append, length_newRequests]
    all_goals
      rw [number_eq, numberRequest_fst]
      rfl
  | @writev requests =>
    refine h.of_reads hserved ?_ rfl rfl rfl
    change s.conn.out.request + BitVec.ofNat 64 _ = BitVec.ofNat 64 (List.length (_ ++ _))
    rw [h.request, ← BitVec.ofNat_add, List.length_append, length_ownerRequests]
  | takeSocket =>
    refine h.of_reads hserved h.request ?_ ?_ rfl <;> rw [register_inp] <;> rfl
  | getSocketBack =>
    obtain ⟨pending, heq⟩ := s.conn.inp.repliesDone_eq s.conn.out.request
    refine h.of_reads hserved h.request ?_ ?_ rfl <;> simp [Session.getSocketBack, heq]
  | @poll cookie =>
    obtain ⟨currentReply, replies, heq⟩ := s.conn.inp.pollForReply_snd (BitVec.ofNat 32 cookie)
    refine h.of_reads hserved h.request ?_ ?_ (reads_poll s cookie) <;> simp [Session.poll, heq]
  | getEvent =>
    refine h.of_reads hserved h.request ?_ ?_ (reads_getEvent s) <;>
      simp [Session.getEvent, XcbIn.getEvent_snd]
  | @discard request =>
    obtain ⟨currentReply, replies, pending, heq⟩ :=
      s.conn.inp.discardReply_eq s.conn.out.request request
    refine h.of_reads hserved h.request ?_ ?_ rfl <;> simp only [Session.discard] <;> split <;>
      simp [heq]
  | @read p wire hwire => exact h.read hwire (hnear rfl p (by rw [hwire]; rfl))
  | _ => exact h.of_reads hserved h.request rfl rfl rfl

end Session

end Xcb
