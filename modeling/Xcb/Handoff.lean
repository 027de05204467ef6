import Xcb.Synchrony

/-!
# The sync rule and socket handoff

`xcb_send_request` inserts a `GetInputFocus` when the next void request would be the 65535th after
`request_expected`. The test is an equality. Sending moves the distance by one at a time and reading
only makes it smaller, so neither gets past the value the test looks for; `xcb_writev` adds the
number of the owner's requests at once, and does.

## What a packet says

`request_read` is the number found for a packet, which is its true one only while packets are close
together. Owners that send more than 65535 void requests separate them. `Session.found` is what
`request_read` stands for then: never more than the true number, since widening looks upwards from
the last one found.

## Main definitions

* `XcbConnection.unanswered` — how far the newest number is from `request_expected`
* `Session.Spaced` — the condition on a run

## Main results

* `unanswered_numberRequest_le_iff` — one request, in any state
* `trailing_of_reach` — away from a handoff there is always room for one more void request
* `unanswered_le_iff` — when a send keeps the distance below 65536
* `unanswered_gt_afterOwner` — an owner's 65535 requests go past it
-/

namespace Xcb

variable {τ β : Type}

/-- The distance from the last number that is known to be answered to the newest one. -/
def XcbConnection.unanswered (c : XcbConnection τ β) : ℕ :=
  (c.out.request - c.inp.requestExpected).toNat

/-! ### One request -/

theorem unanswered_numberRequest (c : XcbConnection τ β) (req : PreparedRequest) :
    (c.numberRequest req).1.unanswered =
      if req.isvoid = false then 0
      else if (c.numberRequest req).2 = 0 then c.nextRequest.unanswered else 1 := by
  have hcount := numberRequest_snd_le c req
  rw [XcbConnection.unanswered, numberRequest_fst]
  generalize (c.numberRequest req).2 = count at hcount ⊢
  cases req.isvoid with
  | false => simp
  | true =>
    by_cases hzero : count = 0
    · simp [hzero, XcbConnection.unanswered, XcbConnection.nextRequest]
    · have hone : c.out.request + BitVec.ofNat 64 (count + 1) -
          (c.out.request + BitVec.ofNat 64 count) = 1#64 := by
        rw [BitVec.ofNat_add]
        bv_omega
      simp [hzero, hone]

/-- The test of the loop, in terms of the distance. -/
theorem needsSync_nextRequest_iff (c : XcbConnection τ β) :
    c.nextRequest.needsSync true = true ↔
      c.nextRequest.unanswered = 65535 ∨ c.out.request + 1 = 0 := by
  simp only [XcbConnection.needsSync, XcbConnection.unanswered, XcbConnection.nextRequest,
    Bool.true_and, Bool.or_eq_true, beq_iff_eq]
  refine or_congr_left ?_
  change c.out.request + 1#64 = c.inp.requestExpected + 65536#64 - 1#64 ↔ _
  constructor
  · intro h
    bv_omega
  · intro h
    bv_omega

/-- **One request.** Unless it is void and the next number is too far ahead already, there is room
for another one afterwards. -/
theorem unanswered_numberRequest_le_iff (c : XcbConnection τ β) (req : PreparedRequest) :
    (c.numberRequest req).1.unanswered ≤ 65534 ↔
      (req.isvoid = true → c.nextRequest.unanswered ≤ 65535 ∨ c.out.request + 1 = 0) := by
  have hneeds := numberRequest_snd_eq_zero_iff c req
  rw [unanswered_numberRequest]
  cases hvoid : req.isvoid with
  | false => simp
  | true =>
    rw [hvoid, ← Bool.not_eq_true, needsSync_nextRequest_iff, not_or] at hneeds
    by_cases hzero : (c.numberRequest req).2 = 0
    · obtain ⟨hfar, hwrap⟩ := hneeds.mp hzero
      simp only [hzero, if_true, Bool.true_eq_false, if_false, true_implies, hwrap, or_false]
      omega
    · have hdue : c.nextRequest.unanswered = 65535 ∨ c.out.request + 1 = 0 := by
        by_contra hnot
        exact hzero (hneeds.mpr (not_or.mp hnot))
      simp only [hzero, if_false, Bool.true_eq_false, true_implies, Nat.one_le_ofNat, true_iff]
      exact hdue.imp_left Nat.le_of_eq

/-- The distance 65535 itself is never kept. -/
theorem unanswered_numberRequest_ne (c : XcbConnection τ β) (req : PreparedRequest) :
    (c.numberRequest req).1.unanswered ≠ 65535 := by
  have hneeds := numberRequest_snd_eq_zero_iff c req
  rw [unanswered_numberRequest]
  split
  · decide
  · next hvoid =>
    rw [Bool.not_eq_false] at hvoid
    split
    · next hzero =>
      rw [hvoid, ← Bool.not_eq_true, needsSync_nextRequest_iff, not_or] at hneeds
      exact (hneeds.mp hzero).1
    · decide

/-! ### The number found for a packet -/

/-- The first number from `found` on that has the low 16 bits of `number`. -/
def nextFound (found number : ℕ) : ℕ := found + (number - found) % 2 ^ 16

theorem le_nextFound (found number : ℕ) : found ≤ nextFound found number := Nat.le_add_right _ _

theorem nextFound_le {found number : ℕ} (h : found ≤ number) : nextFound found number ≤ number := by
  have := Nat.mod_le (number - found) (2 ^ 16)
  simp only [nextFound]
  omega

theorem ofNat_nextFound {found number : ℕ} (h : found ≤ number) :
    BitVec.ofNat 16 (nextFound found number) = BitVec.ofNat 16 number := by
  rw [← BitVec.toNat_inj, BitVec.toNat_ofNat, BitVec.toNat_ofNat, nextFound, Nat.add_mod_mod]
  congr 1
  omega

theorem widenSequence_nextFound {found number : ℕ} (h : found ≤ number) :
    widenSequence (BitVec.ofNat 64 found) (BitVec.ofNat 16 number) =
      BitVec.ofNat 64 (nextFound found number) := by
  have hlt : (number - found) % 2 ^ 16 < 2 ^ 16 := Nat.mod_lt _ (by norm_num)
  rw [← ofNat_nextFound h]
  exact widenSequence_ofNat (le_nextFound found number) (Nat.add_lt_add_left hlt found)

/-- A number that compares as later than `request_expected`, and is at most half the range behind
the newest one, is closer to that. -/
theorem unanswered_of_later {sent found : ℕ} {expected : BitVec 64} (hle : found ≤ sent)
    (hflight : sent ≤ found + 2 ^ 63)
    (hgt : sequenceCompare (BitVec.ofNat 64 found) expected > 0) :
    (BitVec.ofNat 64 sent - BitVec.ofNat 64 found).toNat ≤
      (BitVec.ofNat 64 sent - expected).toNat := by
  have hnear := toNat_ofNat_sub hle (by omega)
  have hstep : BitVec.ofNat 64 sent - expected =
      (BitVec.ofNat 64 sent - BitVec.ofNat 64 found) + (BitVec.ofNat 64 found - expected) := by
    bv_omega
  have hsmall : (BitVec.ofNat 64 found - expected).toNat < 2 ^ 63 := by
    by_contra hlarge
    have hneg : (BitVec.ofNat 64 found - expected).toInt < 0 := by
      rw [BitVec.toInt_eq_toNat_cond, if_neg (by omega)]
      have := (BitVec.ofNat 64 found - expected).isLt
      omega
    exact absurd hgt (not_lt.mpr hneg.le)
  rw [hstep, BitVec.toNat_add, Nat.mod_eq_of_lt (by omega)]
  exact Nat.le_add_right _ _

namespace Session

variable {s t : Session}

/-- The number that `request_read` stands for. -/
def found (s : Session) : ℕ := (stamps s.reads).foldl nextFound 0

theorem found_of_reads (hreads : t.reads = s.reads) : t.found = s.found := by
  rw [found, hreads, found]

theorem found_read (s : Session) (p : Packet Stamp) (wire : List (Packet Stamp)) :
    (s.read p wire).found =
      if p.isKeymapNotify then s.found else nextFound s.found p.body.number := by
  rw [found, reads_read, stamps_append, List.foldl_append]
  cases hkey : p.isKeymapNotify <;> simp [stamps, hkey, found]

theorem source_of_mem_ownerRequests {flags : Flags} {number : BitVec 64}
    {requests : List OwnerRequest} {r : Request} (h : r ∈ ownerRequests flags number requests) :
    r.source = .owner := by
  induction requests generalizing number with
  | nil => cases h
  | cons q requests ih =>
    rcases List.mem_cons.mp h with rfl | h
    · rfl
    · exact ih h

/-! ### The condition -/

/-- Was the last request an owner's? -/
def ownerLast (s : Session) : Bool :=
  s.requests.getLast?.any fun r => match r.source with
    | .owner => true
    | _ => false

theorem ownerLast_append {flags : Flags} {number : BitVec 64} {requests : List OwnerRequest}
    (hnew : t.requests = s.requests ++ ownerRequests flags number requests) (hne : requests ≠ []) :
    t.ownerLast = true := by
  have hne' : ownerRequests flags number requests ≠ [] := by
    rwa [← List.length_pos_iff, length_ownerRequests, List.length_pos_iff]
  have hlast := source_of_mem_ownerRequests (List.getLast_mem hne')
  rw [ownerLast, hnew, List.getLast?_append, List.getLast?_eq_some_getLast hne', Option.some_or,
    Option.any_some, hlast]

/-- The condition on a run: no void request is sent directly after an owner's when the next number
is too far ahead already, and no packet is read with more than `2 ^ 63` requests in flight. -/
def Spaced (s : Session) : Action → Prop
  | .send call _ => call.isvoid = true → s.ownerLast = true →
      s.conn.nextRequest.unanswered ≤ 65535 ∨ s.conn.out.request + 1 = 0
  | .read => s.requests.length ≤ s.found + 2 ^ 63
  | _ => True

/-! ### The invariant -/

/-- What both sides know about the numbers, with a socket that changes hands. -/
structure Trailing (s : Session) : Prop where
  served : s.Served
  request : s.conn.out.request = BitVec.ofNat 64 s.requests.length
  requestRead : s.conn.inp.requestRead = BitVec.ofNat 64 s.found
  found_le : s.found ≤ s.lastRead
  /-- There is room for one more void request, unless an owner has taken it. -/
  room : s.ownerLast = false → s.conn.unanswered ≤ 65534

theorem trailing_init (size : ℕ) (maximum : BitVec 16) : (Session.init size maximum).Trailing :=
  ⟨served_init size maximum, rfl, rfl, Nat.le_refl 0, fun _ =>
    show (0#64 - 0#64).toNat ≤ 65534 by decide⟩

/-- Steps that neither number a request nor read a packet. -/
theorem Trailing.of_same (h : s.Trailing) (ht : t.Served) (hrequests : t.requests = s.requests)
    (hreads : t.reads = s.reads) (hout : t.conn.out.request = s.conn.out.request)
    (hread : t.conn.inp.requestRead = s.conn.inp.requestRead)
    (hexp : t.conn.inp.requestExpected = s.conn.inp.requestExpected) : t.Trailing := by
  refine ⟨ht, ?_, ?_, ?_, ?_⟩
  · rw [hout, hrequests]
    exact h.request
  · rw [hread, found_of_reads hreads]
    exact h.requestRead
  · rw [found_of_reads hreads, lastRead_of_reads hreads]
    exact h.found_le
  · rw [ownerLast, hrequests, XcbConnection.unanswered, hout, hexp]
    exact h.room

/-- Before a send that meets the condition, the next number is not too far ahead. -/
theorem Trailing.next_le (h : s.Trailing) {call : SendCall} {fails : ℕ → Bool}
    (hok : Spaced s (.send call fails)) (hvoid : call.isvoid = true) :
    s.conn.nextRequest.unanswered ≤ 65535 ∨ s.conn.out.request + 1 = 0 := by
  cases howner : s.ownerLast with
  | true => exact hok hvoid howner
  | false =>
    have hroom := h.room howner
    simp only [XcbConnection.unanswered, XcbConnection.nextRequest] at hroom ⊢
    left
    bv_omega

theorem Trailing.send (h : s.Trailing) {call : SendCall} {fails : ℕ → Bool} {req : PreparedRequest}
    (hok : Spaced s (.send call fails)) (hisvoid : req.isvoid = call.isvoid) (ht : t.Served)
    (hinp : t.conn.inp = (s.conn.numberRequest req).1.inp)
    (hout : t.conn.out.request = (s.conn.numberRequest req).1.out.request)
    (hnew : t.requests = s.requests ++
      newRequests s.conn.out.request (s.conn.numberRequest req).2 call req fails)
    (hreads : t.reads = s.reads) : t.Trailing := by
  refine ⟨ht, ?_, ?_, ?_, fun _ => ?_⟩
  · rw [hout, numberRequest_fst, hnew, List.length_append, length_newRequests,
      BitVec.ofNat_add s.requests.length, ← h.request]
  · rw [hinp, numberRequest_fst, found_of_reads hreads]
    exact h.requestRead
  · rw [found_of_reads hreads, lastRead_of_reads hreads]
    exact h.found_le
  · rw [XcbConnection.unanswered, hinp, hout]
    refine (unanswered_numberRequest_le_iff s.conn req).mpr fun hvoid => ?_
    exact h.next_le hok (hisvoid ▸ hvoid)

/-- The owner's own requests. -/
theorem Trailing.writev (h : s.Trailing) {requests : List OwnerRequest} (ht : t.Served)
    (hconn : t.conn.inp = s.conn.inp)
    (hout : t.conn.out.request = s.conn.out.request + BitVec.ofNat 64 requests.length)
    (hnew : t.requests = s.requests ++
      ownerRequests s.ownerFlags (s.conn.out.request + 1) requests)
    (hreads : t.reads = s.reads) : t.Trailing := by
  refine ⟨ht, ?_, ?_, ?_, ?_⟩
  · rw [hout, hnew, List.length_append, length_ownerRequests, BitVec.ofNat_add, ← h.request]
  · rw [hconn, found_of_reads hreads]
    exact h.requestRead
  · rw [found_of_reads hreads, lastRead_of_reads hreads]
    exact h.found_le
  · intro howner
    by_cases hnil : requests = []
    · rw [hnil] at hnew hout
      simp only [ownerRequests, List.append_nil, List.length_nil, BitVec.add_zero] at hnew hout
      rw [XcbConnection.unanswered, hconn, hout]
      refine h.room ?_
      rwa [ownerLast, hnew] at howner
    · rw [ownerLast_append hnew hnil] at howner
      cases howner

/-- Reading a packet makes the distance smaller, or leaves it. -/
theorem Trailing.read (h : s.Trailing) {p : Packet Stamp} {wire : List (Packet Stamp)}
    (hwire : s.wire = p :: wire) (hflight : s.requests.length ≤ s.found + 2 ^ 63) :
    (s.read p wire).Trailing := by
  have hp : p ∈ s.wire := by
    rw [hwire]
    exact List.mem_cons_self
  have ht := h.served.of_client (t := s.read p wire) (List.append_nil _).symm rfl
    (packets_read hwire)
  cases hkey : p.isKeymapNotify with
  | true =>
    refine ⟨ht, h.request, ?_, ?_, ?_⟩
    · change (s.conn.inp.readPacket p).1.requestRead = _
      rw [found_read, hkey, if_pos rfl, requestRead_readPacket, hkey, if_pos rfl]
      exact h.requestRead
    · rw [found_read, lastRead_read, nextRead, hkey, if_pos rfl, if_pos rfl]
      exact h.found_le
    · change s.ownerLast = false →
        (s.conn.out.request - (s.conn.inp.readPacket p).1.requestExpected).toNat ≤ 65534
      rw [XcbIn.readPacket_fst, XcbIn.advance_of_keymapNotify _ _ hkey]
      exact h.room
  | false =>
    have hle := h.found_le.trans (h.served.lastRead_le hp)
    have hnumber := h.served.le_handled p (List.mem_append_right _ hp)
    have hhandled := h.served.handled_le
    have hfound := nextFound_le hle
    have hmore := le_nextFound s.found p.body.number
    have hwiden : widenSequence s.conn.inp.requestRead p.sequence =
        BitVec.ofNat 64 (nextFound s.found p.body.number) := by
      rw [h.requestRead, h.served.sequence p (List.mem_append_right _ hp) hkey,
        widenSequence_nextFound hle]
    refine ⟨ht, h.request, ?_, ?_, ?_⟩
    · change (s.conn.inp.readPacket p).1.requestRead = _
      rw [found_read, hkey, if_neg Bool.false_ne_true, requestRead_readPacket, hkey,
        if_neg Bool.false_ne_true, hwiden]
    · rw [found_read, lastRead_read, nextRead, hkey, if_neg Bool.false_ne_true,
        if_neg Bool.false_ne_true]
      exact hfound
    · change s.ownerLast = false →
        (s.conn.out.request - (s.conn.inp.readPacket p).1.requestExpected).toNat ≤ 65534
      intro howner
      have hroom := h.room howner
      simp only [XcbIn.readPacket_fst, XcbIn.advance_of_not_keymapNotify _ _ hkey,
        XcbIn.advanceRead, hwiden]
      split
      · next hgt =>
        rw [XcbConnection.unanswered, h.request] at hroom
        rw [h.request]
        exact (unanswered_of_later (by omega) (by omega) hgt).trans hroom
      · exact hroom

/-- One step, by its action. -/
theorem trailing_step {a : Action} (h : s.Trailing) (hok : Spaced s a)
    (hstep : s.step a = some t) : t.Trailing := by
  have ht := served_step h.served hstep
  cases step_cases hstep with
  | @send call fails req socket queue queueLen written herr hfree hreq =>
    refine h.send hok (isvoid_of_prepare hreq) ht ?_ ?_ ?_ ?_
    all_goals
      rw [number_eq]
      rfl
  | writev => exact h.writev ht rfl rfl rfl rfl
  | takeSocket =>
    refine h.of_same ht rfl rfl rfl ?_ ?_ <;> rw [register_inp] <;> rfl
  | getSocketBack =>
    obtain ⟨pending, heq⟩ := s.conn.inp.repliesDone_eq s.conn.out.request
    refine h.of_same ht rfl rfl rfl ?_ ?_ <;> simp [Session.getSocketBack, heq]
  | @poll cookie =>
    obtain ⟨currentReply, replies, heq⟩ := s.conn.inp.pollForReply_snd (BitVec.ofNat 32 cookie)
    refine h.of_same ht rfl (reads_poll s cookie) rfl ?_ ?_ <;> simp [Session.poll, heq]
  | getEvent =>
    refine h.of_same ht rfl (reads_getEvent s) rfl ?_ ?_ <;>
      simp [Session.getEvent, XcbIn.getEvent_snd]
  | @discard request =>
    obtain ⟨currentReply, replies, pending, heq⟩ :=
      s.conn.inp.discardReply_eq s.conn.out.request request
    refine h.of_same ht rfl rfl rfl ?_ ?_ <;> simp only [Session.discard] <;> split <;> simp [heq]
  | read hwire => exact h.read hwire hok
  | _ => exact h.of_same ht rfl rfl rfl rfl rfl

theorem trailing_of_reach {size : ℕ} {maximum : BitVec 16}
    (h : Transition.Reach Session.step Spaced (Session.init size maximum) s) : s.Trailing :=
  h.invariant (fun _ _ _ h hok hstep => trailing_step h hok hstep) (trailing_init size maximum)

/-! ### The result -/

/-- One successful send, in any state. -/
theorem unanswered_send_le_iff {call : SendCall} {fails : ℕ → Bool}
    (hstep : s.step (.send call fails) = some t) (hsent : t.conn.hasError = false) :
    t.conn.unanswered ≤ 65535 ↔
      (call.isvoid = true →
        s.conn.nextRequest.unanswered ≤ 65535 ∨ s.conn.out.request + 1 = 0) := by
  cases step_cases hstep with
  | refuse => cases hsent
  | @send _ _ req socket queue queueLen written herr hfree hreq =>
    have hne := unanswered_numberRequest_ne s.conn req
    have hiff := unanswered_numberRequest_le_iff s.conn req
    rw [isvoid_of_prepare hreq] at hiff
    rw [← hiff, number_eq]
    change (s.conn.numberRequest req).1.unanswered ≤ 65535 ↔ _
    omega

/-- **The sync rule and handoff.** In a run that has met the condition so far, a successful send
keeps the distance below 65536 exactly if it meets the condition too. -/
theorem unanswered_le_iff {size : ℕ} {maximum : BitVec 16} {call : SendCall} {fails : ℕ → Bool}
    (h : Transition.Reach Session.step Spaced (Session.init size maximum) s)
    (hstep : s.step (.send call fails) = some t) (hsent : t.conn.hasError = false) :
    t.conn.unanswered ≤ 65535 ↔ Spaced s (.send call fails) := by
  rw [unanswered_send_le_iff hstep hsent]
  constructor
  · intro hle hvoid _
    exact hle hvoid
  · intro hok hvoid
    exact (trailing_of_reach h).next_le hok hvoid

/-! ### The condition is needed

The socket is taken, its owner sends `n` requests that ask for no answer, and gives it back. -/

/-- A void request of an owner: `NoOperation`. -/
def ownerWord : OwnerRequest := ⟨true, [127, 0, 1, 0], false⟩

/-- The session after that. -/
def afterOwner (n : ℕ) : Session :=
  (((Session.init 16384 65535).takeSocket 0).writev (List.replicate n ownerWord)).getSocketBack

theorem reach_afterOwner {ok : Session → Action → Prop} (hok : ∀ s a, a.isHandoff = true → ok s a)
    (n : ℕ) : Transition.Reach Session.step ok (Session.init 16384 65535) (afterOwner n) := by
  have htake : Transition.Reach Session.step ok (Session.init 16384 65535)
      ((Session.init 16384 65535).takeSocket 0) := .single (a := .takeSocket 0) (hok _ _ rfl) rfl
  have hwrite := htake.tail (a := .writev (List.replicate n ownerWord)) (hok _ _ rfl) rfl
  exact hwrite.tail (a := .getSocketBack) (hok _ _ rfl) rfl

theorem request_afterOwner (n : ℕ) : (afterOwner n).conn.out.request = BitVec.ofNat 64 n := by
  change 0#64 + BitVec.ofNat 64 (List.replicate n ownerWord).length = _
  rw [List.length_replicate, BitVec.zero_add]

theorem unanswered_afterOwner (n : ℕ) :
    (afterOwner n).conn.nextRequest.unanswered = (n + 1) % 2 ^ 64 := by
  change ((afterOwner n).conn.out.request + BitVec.ofNat 64 1 - 0#64).toNat = _
  rw [request_afterOwner, ← BitVec.ofNat_add, BitVec.sub_zero, BitVec.toNat_ofNat]

theorem hasError_sendRequest (s : Session) (call : SendCall) (req : PreparedRequest)
    (fails : ℕ → Bool) : (s.sendRequest call req fails).conn.hasError = s.conn.hasError := by
  obtain ⟨socket, queue, queueLen, written, hout⟩ := sendRequest_eq s call req fails
  rw [hout, number_eq, numberRequest_fst]
  rfl

theorem step_afterOwner (n : ℕ) : (afterOwner n).step (.send (wordCall true) fun _ => false) =
    some ((afterOwner n).sendRequest (wordCall true) (wordRequest true) fun _ => false) :=
  step_send rfl rfl (prepare_wordCall true) fun _ => false

/-- One request of an owner leaves room. -/
theorem unanswered_le_afterOwner :
    ((afterOwner 1).sendRequest (wordCall true) (wordRequest true)
      fun _ => false).conn.unanswered ≤ 65535 := by
  have hok : Spaced (afterOwner 1) (.send (wordCall true) fun _ => false) := fun _ _ => by
    rw [unanswered_afterOwner]
    exact .inl (by norm_num)
  refine (unanswered_le_iff (reach_afterOwner ?_ 1) (step_afterOwner 1)
    (hasError_sendRequest _ _ _ _)).mpr hok
  intro s a ha
  cases a <;> trivial

/-- 65535 of them do not: the next number is 65536 past the last one that is known to be answered,
and no `GetInputFocus` is inserted. -/
theorem unanswered_gt_afterOwner :
    ∃ s t : Session, Transition.Reach Session.step (fun _ _ => True) (Session.init 16384 65535) s ∧
      s.step (.send (wordCall true) fun _ => false) = some t ∧ t.conn.hasError = false ∧
      ¬ t.conn.unanswered ≤ 65535 := by
  have hsent := hasError_sendRequest (afterOwner 65535) (wordCall true) (wordRequest true)
    fun _ => false
  refine ⟨_, _, reach_afterOwner (fun _ _ _ => trivial) 65535, step_afterOwner 65535, hsent, ?_⟩
  rw [unanswered_send_le_iff (step_afterOwner 65535) hsent, unanswered_afterOwner]
  intro hle
  rcases hle rfl with hfar | hzero
  · exact absurd hfar (by norm_num)
  · rw [request_afterOwner] at hzero
    exact absurd hzero (by decide)

end Session

end Xcb
