import Mathlib.Data.List.Flatten
import Xcb.Output
import Xcb.Sequence

/-!
# What each step does to a session

One lemma per action, so that no invariant has to unfold a call again. Writing only moves bytes:
it leaves the input half, the numbers and the history alone. Numbering a request is what all of
them change by, and `number_eq` says what it adds.

## Main results

* `writeBlock_eq`, `flushTo_eq` — writing only moves bytes
* `stream_sendRequest`, `stream_flushTo` — and keeps their order
* `number_eq` — a request is numbered
* `step_cases` — what a step can do
* `request?_append_left`, `nonvoid_number` — which request a number stands for
-/

namespace Xcb

namespace Session

variable {s t : Session}

/-! ### Writing only moves bytes -/

/-- A session with other bytes on their way. -/
def withOutput (s : Session) (socket queue : List UInt8) (queueLen : ℕ) (written : BitVec 64) :
    Session :=
  { s with
    socket := socket
    conn := { s.conn with
      out := { s.conn.out with
        queue := queue, queueLen := queueLen, requestWritten := written } } }

theorem writeBlock_eq (s : Session) (parts : List (List UInt8)) :
    ∃ socket queue queueLen written,
      s.writeBlock parts = s.withOutput socket queue queueLen written := by
  obtain ⟨queue, queueLen, h⟩ := out_writeBlock_eq s.conn.out parts
  simp only [Session.writeBlock, h]
  split
  · exact ⟨s.socket, queue, queueLen, s.conn.out.requestWritten, rfl⟩
  · exact ⟨_, queue, queueLen, s.conn.out.request, rfl⟩

theorem flushTo_eq (s : Session) (request : BitVec 64) :
    ∃ socket queue queueLen written,
      s.flushTo request = s.withOutput socket queue queueLen written := by
  unfold Session.flushTo
  split
  · exact ⟨s.socket, s.conn.out.queue, s.conn.out.queueLen, s.conn.out.requestWritten, rfl⟩
  · split
    · exact ⟨_, s.conn.out.queue, 0, s.conn.out.request, rfl⟩
    · exact ⟨s.socket, s.conn.out.queue, s.conn.out.queueLen, s.conn.out.requestWritten, rfl⟩

theorem awaitReply_eq (s : Session) (cookie : ℕ) :
    ∃ socket queue queueLen written,
      s.awaitReply cookie = s.withOutput socket queue queueLen written := by
  unfold Session.awaitReply
  split
  · exact ⟨s.socket, s.conn.out.queue, s.conn.out.queueLen, s.conn.out.requestWritten, rfl⟩
  · exact flushTo_eq s _

theorem stream_writeBlock (s : Session) (parts : List (List UInt8)) :
    (s.writeBlock parts).stream = s.stream ++ parts.flatten := by
  by_cases h : (s.conn.out.writeBlock parts).2 = []
  · have hqueued := queued_writeBlock_of_nil h
    simp only [XcbOut.queued] at hqueued
    simp only [Session.writeBlock, h, if_true, Session.stream, hqueued, List.append_assoc]
  · have hgather := gather_writeBlock_of_ne_nil h
    simp only [XcbOut.queued] at hgather
    simp only [Session.writeBlock, if_neg h, Session.stream, Session.outSend, hgather,
      queueLen_writeBlock h, List.take_zero, List.append_nil, List.append_assoc]

theorem stream_flushTo (s : Session) (request : BitVec 64) :
    (s.flushTo request).stream = s.stream := by
  unfold Session.flushTo
  split
  · rfl
  · split
    · simp [Session.stream, Session.outSend, XcbOut.takeQueue, bytes_queue]
    · rfl

theorem stream_awaitReply (s : Session) (cookie : ℕ) : (s.awaitReply cookie).stream = s.stream := by
  unfold Session.awaitReply
  split
  · rfl
  · exact stream_flushTo s _

/-- Written at once or flushed, a request leaves nothing in the queue. -/
theorem flushTo_writeBlock {parts : List (List UInt8)} (hpos : parts.flatten ≠ [])
    (hlt : sequenceCompare s.conn.out.requestWritten s.conn.out.request < 0) :
    ((s.writeBlock parts).flushTo s.conn.out.request).conn.out.queueLen = 0 ∧
      ((s.writeBlock parts).flushTo s.conn.out.request).conn.out.requestWritten =
        s.conn.out.request := by
  obtain ⟨queue, queueLen, hout⟩ := out_writeBlock_eq s.conn.out parts
  by_cases h : (s.conn.out.writeBlock parts).2 = []
  · have hne : (s.conn.out.writeBlock parts).1.queueLen ≠ 0 := by
      intro hzero
      have hqueued := queued_writeBlock_of_nil h
      rw [XcbOut.queued, hzero, List.take_zero] at hqueued
      exact hpos (List.append_eq_nil_iff.mp hqueued.symm).2
    rw [hout] at hne
    simp only [Session.writeBlock, h, if_true, Session.flushTo, hout, if_neg (not_le.mpr hlt),
      if_pos hne]
    exact ⟨rfl, rfl⟩
  · have hzero := queueLen_writeBlock h
    rw [hout] at hzero
    simp only [Session.writeBlock, if_neg h, Session.flushTo, Session.outSend, hout]
    rw [if_pos (by simp [sequenceCompare])]
    exact ⟨hzero, rfl⟩

/-- A request in the stream: the `GetInputFocus`, however many numbers it stands for, and the
request itself. -/
theorem stream_sendRequest (s : Session) (call : SendCall) (req : PreparedRequest)
    (fails : ℕ → Bool) :
    (s.sendRequest call req fails).stream =
      s.stream ++ (if (s.conn.numberRequest req).2 ≠ 0 then syncReq else []) ++ req.encoding := by
  have hnumber : (s.number call req fails).stream = s.stream := by
    simp only [Session.stream, Session.number, numberRequest_fst]
  rw [Session.sendRequest, stream_writeBlock, flatten_vector, hnumber, List.append_assoc]
  simp only [decide_eq_true_eq]

/-! ### Numbering -/

/-- The requests that numbering `req` adds to the history: `count` times `GetInputFocus`, and the
request itself. -/
def newRequests (number : BitVec 64) (count : ℕ) (call : SendCall) (req : PreparedRequest)
    (fails : ℕ → Bool) : List Request :=
  syncRequests (number + 1) fails count ++
    [{ number := number + BitVec.ofNat 64 (count + 1), source := .call call,
       isvoid := req.isvoid, flags := req.flags, workaround := req.workaround,
       encoding := req.encoding, fails := fails 0 }]

theorem number_eq (s : Session) (call : SendCall) (req : PreparedRequest) (fails : ℕ → Bool) :
    s.number call req fails =
      { s with
        conn := (s.conn.numberRequest req).1
        requests := s.requests ++
          newRequests s.conn.out.request (s.conn.numberRequest req).2 call req fails } := by
  simp [Session.number, newRequests, numberRequest_fst]

/-- Sending is numbering, and moving bytes. -/
theorem sendRequest_eq (s : Session) (call : SendCall) (req : PreparedRequest) (fails : ℕ → Bool) :
    ∃ socket queue queueLen written, s.sendRequest call req fails =
      (s.number call req fails).withOutput socket queue queueLen written :=
  writeBlock_eq (s.number call req fails) _

@[simp] theorem length_syncRequests (number : BitVec 64) (fails : ℕ → Bool) (count : ℕ) :
    (syncRequests number fails count).length = count := by
  induction count generalizing number with
  | zero => rfl
  | succ count ih => simp [syncRequests, ih]

@[simp] theorem length_newRequests (number : BitVec 64) (count : ℕ) (call : SendCall)
    (req : PreparedRequest) (fails : ℕ → Bool) :
    (newRequests number count call req fails).length = count + 1 := by
  simp [newRequests]

theorem requests_sendRequest (s : Session) (call : SendCall) (req : PreparedRequest)
    (fails : ℕ → Bool) : (s.sendRequest call req fails).requests = s.requests ++
      newRequests s.conn.out.request (s.conn.numberRequest req).2 call req fails := by
  obtain ⟨socket, queue, queueLen, written, hout⟩ := sendRequest_eq s call req fails
  rw [hout, number_eq]
  rfl

theorem getElem?_syncRequests {number : BitVec 64} {fails : ℕ → Bool} {count i : ℕ} {r : Request}
    (h : (syncRequests number fails count)[i]? = some r) :
    r.number = number + BitVec.ofNat 64 i ∧ r.source = .sync ∧ r.encoding = syncReq ∧
      r.workaround = .none := by
  induction count generalizing number i with
  | zero => simp [syncRequests] at h
  | succ count ih =>
    cases i with
    | zero =>
      cases h
      exact ⟨(BitVec.add_zero number).symm, rfl, rfl, rfl⟩
    | succ i =>
      obtain ⟨hnumber, hrest⟩ := ih h
      refine ⟨?_, hrest⟩
      rw [hnumber, Nat.add_comm i, BitVec.ofNat_add, ← BitVec.add_assoc]
      rfl

/-- Numbers are given in order. -/
theorem number_of_newRequests {number : BitVec 64} {count : ℕ} {call : SendCall}
    {req : PreparedRequest} {fails : ℕ → Bool} {i : ℕ} {r : Request}
    (h : (newRequests number count call req fails)[i]? = some r) :
    r.number = number + BitVec.ofNat 64 (i + 1) := by
  have hadd : number + 1 + BitVec.ofNat 64 i = number + BitVec.ofNat 64 (i + 1) := by
    rw [Nat.add_comm i, BitVec.ofNat_add, ← BitVec.add_assoc]
    rfl
  rcases Nat.lt_or_ge i count with hlt | hge
  · rw [newRequests, List.getElem?_append_left (by simpa using hlt)] at h
    rw [(getElem?_syncRequests h).1, hadd]
  · rw [newRequests, List.getElem?_append_right (by simpa using hge), length_syncRequests] at h
    have hi : i = count := by
      have := (List.getElem?_eq_some_iff.mp h).1
      simp only [List.length_singleton] at this
      omega
    rw [hi, Nat.sub_self] at h
    cases h
    rw [hi]

theorem isvoid_of_mem_syncRequests {number : BitVec 64} {fails : ℕ → Bool} {count : ℕ}
    {r : Request} (h : r ∈ syncRequests number fails count) : r.isvoid = false := by
  induction count generalizing number with
  | zero => simp [syncRequests] at h
  | succ count ih =>
    rcases List.mem_cons.mp h with rfl | h
    · rfl
    · exact ih h

@[simp] theorem length_ownerRequests (flags : Flags) (number : BitVec 64)
    (requests : List OwnerRequest) :
    (ownerRequests flags number requests).length = requests.length := by
  induction requests generalizing number with
  | nil => rfl
  | cons r requests ih => simp [ownerRequests, ih]

/-! ### Handoffs -/

theorem getElem?_ownerRequests {flags : Flags} {number : BitVec 64} {requests : List OwnerRequest}
    {i : ℕ} {r : Request} (h : (ownerRequests flags number requests)[i]? = some r) :
    r.flags = flags ∧ r.workaround = .none := by
  induction requests generalizing number i with
  | nil => simp [ownerRequests] at h
  | cons q requests ih =>
    cases i with
    | zero =>
      cases h
      exact ⟨rfl, rfl⟩
    | succ i => exact ih h

/-- Taking the socket adds one entry, for the requests from the last one on. -/
theorem register_inp (s : Session) (flags : Flags) :
    (s.register flags).conn.inp =
      { s.conn.inp with
        pendingReplies := s.conn.inp.pendingReplies ++
          if flags ≠ 0 then
            [⟨s.conn.out.request, s.conn.out.request, .externalSocketOwner, flags⟩]
          else [] } := by
  by_cases hflags : flags ≠ 0
  · simp only [Session.register, if_pos hflags, XcbIn.expectReply]
  · simp only [Session.register, if_neg hflags, List.append_nil]

/-! ### Requests by number -/

/-- Request `n` asks for an answer. -/
def Nonvoid (s : Session) (n : ℕ) : Prop := ∃ r, s.request? n = some r ∧ r.isvoid = false

theorem request?_eq_some_iff {n : ℕ} {r : Request} :
    s.request? n = some r ↔ 0 < n ∧ s.requests[n - 1]? = some r := by
  unfold Session.request?
  split
  · simp [*]
  · simp [Nat.pos_of_ne_zero ‹_›]

theorem le_length_of_request? {n : ℕ} {r : Request} (h : s.request? n = some r) :
    0 < n ∧ n ≤ s.requests.length := by
  obtain ⟨hpos, h⟩ := request?_eq_some_iff.mp h
  have := (List.getElem?_eq_some_iff.mp h).1
  exact ⟨hpos, by omega⟩

/-- Earlier requests keep their numbers. -/
theorem request?_append_left {new : List Request} (h : t.requests = s.requests ++ new) {n : ℕ}
    (hn : n ≤ s.requests.length) : t.request? n = s.request? n := by
  unfold Session.request?
  split
  · rfl
  · rw [h, List.getElem?_append_left (by omega)]

theorem request?_append_right {new : List Request} (h : t.requests = s.requests ++ new) (i : ℕ) :
    t.request? (s.requests.length + i + 1) = new[i]? := by
  rw [Session.request?, if_neg (by omega), h, List.getElem?_append_right (by omega)]
  congr 1
  omega

theorem Nonvoid.append {new : List Request} (h : t.requests = s.requests ++ new) {n : ℕ}
    (hn : s.Nonvoid n) : t.Nonvoid n := by
  obtain ⟨r, hr, hvoid⟩ := hn
  exact ⟨r, by rw [request?_append_left h (le_length_of_request? hr).2, hr], hvoid⟩

theorem Nonvoid.of_append {new : List Request} (h : t.requests = s.requests ++ new) {n : ℕ}
    (hle : n ≤ s.requests.length) (hn : t.Nonvoid n) : s.Nonvoid n := by
  obtain ⟨r, hr, hvoid⟩ := hn
  exact ⟨r, by rw [← request?_append_left h hle, hr], hvoid⟩

/-- Each inserted `GetInputFocus` asks for an answer. -/
theorem nonvoid_sync {number : BitVec 64} {count : ℕ} {call : SendCall} {req : PreparedRequest}
    {fails : ℕ → Bool} (h : t.requests = s.requests ++ newRequests number count call req fails)
    {i : ℕ}
    (hi : i < count) : t.Nonvoid (s.requests.length + i + 1) := by
  have hlt : i < (syncRequests (number + 1) fails count).length := by simpa using hi
  refine ⟨(syncRequests (number + 1) fails count)[i], ?_, ?_⟩
  · rw [request?_append_right h, newRequests, List.getElem?_append_left hlt,
      List.getElem?_eq_getElem hlt]
  · exact isvoid_of_mem_syncRequests (List.getElem_mem hlt)

/-- The request itself does unless it is void. -/
theorem nonvoid_own_iff {number : BitVec 64} {count : ℕ} {call : SendCall} {req : PreparedRequest}
    {fails : ℕ → Bool} (h : t.requests = s.requests ++ newRequests number count call req fails) :
    t.Nonvoid (s.requests.length + count + 1) ↔ req.isvoid = false := by
  have hown := request?_append_right h count
  rw [newRequests, List.getElem?_append_right (by simp)] at hown
  simp [Nonvoid, hown]

/-! ### Steps -/

/-- What a step can do, up to the bytes on their way. -/
inductive Step (s : Session) : Action → Session → Prop
  | send {call : SendCall} {fails : ℕ → Bool} {req : PreparedRequest} {socket queue : List UInt8}
      {queueLen : ℕ} {written : BitVec 64} (herr : s.conn.hasError = false)
      (hfree : s.conn.out.returnSocket = none)
      (hreq : call.prepare s.conn.setupMaximumRequestLength = some req) :
      Step s (.send call fails)
        ((s.number call req fails).withOutput socket queue queueLen written)
  | refuse {call : SendCall} {fails : ℕ → Bool}
      (hnone : call.prepare s.conn.setupMaximumRequestLength = none) :
      Step s (.send call fails) { s with conn := s.conn.shutdown }
  | flush {socket queue : List UInt8} {queueLen : ℕ} {written : BitVec 64} :
      Step s .flush (s.withOutput socket queue queueLen written)
  | takeSocket {flags : Flags} {socket queue : List UInt8} {queueLen : ℕ} {written : BitVec 64}
      (hfree : s.conn.out.returnSocket = none) :
      Step s (.takeSocket flags) ((s.withOutput socket queue queueLen written).register flags)
  | writev {requests : List OwnerRequest} {socket queue : List UInt8} {queueLen : ℕ}
      {written : BitVec 64} (htaken : s.conn.out.returnSocket ≠ none) :
      Step s (.writev requests)
        ((s.numberOwner requests).withOutput socket queue queueLen written)
  | getSocketBack (htaken : s.conn.out.returnSocket ≠ none) : Step s .getSocketBack s.getSocketBack
  | awaitReply {cookie : ℕ} {socket queue : List UInt8} {queueLen : ℕ} {written : BitVec 64} :
      Step s (.awaitReply cookie) (s.withOutput socket queue queueLen written)
  | poll {cookie : ℕ} : Step s (.poll cookie) (s.poll cookie)
  | getEvent : Step s .getEvent s.getEvent
  | discard {request : BitVec 32} : Step s (.discard request) (s.discard request)
  | handle (hhanded : s.handed (s.server.handled + 1) = true) (hanswered : s.answered = true) :
      Step s .handle s.handle
  | emit {responseType : BitVec 8} {sequence : BitVec 16} {bytes : List UInt8}
      (hcan : s.canEmit (s.packet responseType sequence bytes) = true)
      (hseq : (s.packet responseType sequence bytes).isKeymapNotify = true ∨
        sequence = BitVec.ofNat 16 s.server.handled) :
      Step s (.emit responseType sequence bytes) (s.emit (s.packet responseType sequence bytes))
  | read {p : Packet Stamp} {wire : List (Packet Stamp)} (hwire : s.wire = p :: wire) :
      Step s .read (s.read p wire)

/-- A call that nothing keeps from being numbered. -/
theorem step_send {call : SendCall} {req : PreparedRequest} (herr : s.conn.hasError = false)
    (hfree : s.conn.out.returnSocket = none)
    (hreq : call.prepare s.conn.setupMaximumRequestLength = some req) (fails : ℕ → Bool) :
    s.step (.send call fails) = some (s.sendRequest call req fails) := by
  simp [Session.step, herr, hfree, hreq]

/-- A call that is refused: its extension is missing, or it is too long. -/
theorem step_refuse {call : SendCall} (herr : s.conn.hasError = false)
    (hfree : s.conn.out.returnSocket = none)
    (hnone : call.prepare s.conn.setupMaximumRequestLength = none) (fails : ℕ → Bool) :
    s.step (.send call fails) = some { s with conn := s.conn.shutdown } := by
  simp [Session.step, herr, hfree, hnone]

theorem step_cases {a : Action} (h : s.step a = some t) : Step s a t := by
  cases a with
  | send call fails =>
    simp only [Session.step] at h
    split at h
    · cases h
    · next hcond =>
      simp only [Bool.or_eq_true, not_or, Bool.not_eq_true, Option.isSome_eq_false_iff,
        Option.isNone_iff_eq_none] at hcond
      split at h
      · next req hreq =>
        obtain ⟨socket, queue, queueLen, written, hout⟩ := sendRequest_eq s call req fails
        cases h
        rw [hout]
        exact .send hcond.1 hcond.2 hreq
      · next hnone =>
        cases h
        exact .refuse hnone
  | flush =>
    simp only [Session.step] at h
    split at h
    · cases h
    · obtain ⟨socket, queue, queueLen, written, hout⟩ := flushTo_eq s s.conn.out.request
      cases h
      rw [hout]
      exact .flush
  | takeSocket flags =>
    simp only [Session.step] at h
    split at h
    · cases h
    · next hcond =>
      simp only [Bool.or_eq_true, not_or, Bool.not_eq_true, Option.isSome_eq_false_iff,
        Option.isNone_iff_eq_none] at hcond
      obtain ⟨socket, queue, queueLen, written, hout⟩ := flushTo_eq s s.conn.out.request
      cases h
      rw [Session.takeSocket, hout]
      exact .takeSocket hcond.2
  | writev requests =>
    simp only [Session.step] at h
    split at h
    · cases h
    · next hcond =>
      simp only [Bool.or_eq_true, not_or, Bool.not_eq_true, Option.isNone_iff_eq_none] at hcond
      cases h
      exact .writev hcond.2
  | getSocketBack =>
    simp only [Session.step] at h
    split at h
    · cases h
    · next hcond =>
      cases h
      exact .getSocketBack (by simpa using hcond)
  | awaitReply cookie =>
    simp only [Session.step] at h
    split at h
    · cases h
    · obtain ⟨socket, queue, queueLen, written, hout⟩ := awaitReply_eq s cookie
      cases h
      rw [hout]
      exact .awaitReply
  | poll cookie =>
    simp only [Session.step] at h
    split at h
    · cases h
    · cases h
      exact .poll
  | getEvent =>
    simp only [Session.step] at h
    split at h
    · cases h
    · cases h
      exact .getEvent
  | discard request =>
    simp only [Session.step] at h
    split at h
    · cases h
    · cases h
      exact .discard
  | handle =>
    simp only [Session.step] at h
    split at h
    · next hcond =>
      cases h
      rw [Bool.and_eq_true] at hcond
      exact .handle hcond.1 hcond.2
    · cases h
  | emit responseType sequence bytes =>
    simp only [Session.step] at h
    split at h
    · next hcond =>
      cases h
      simp only [Bool.and_eq_true, Bool.or_eq_true, beq_iff_eq] at hcond
      exact .emit hcond.1 hcond.2
    · cases h
  | read =>
    simp only [Session.step] at h
    split at h
    · next p wire hwire =>
      cases h
      exact .read hwire
    · cases h

/-- Requests are never forgotten. -/
theorem requests_step {a : Action} (h : s.step a = some t) :
    ∃ new, t.requests = s.requests ++ new := by
  cases step_cases h with
  | send =>
    rw [number_eq]
    exact ⟨_, rfl⟩
  | writev => exact ⟨_, rfl⟩
  | _ => exact ⟨[], (List.append_nil _).symm⟩

theorem length_requests_le {a : Action} (h : s.step a = some t) :
    s.requests.length ≤ t.requests.length := by
  obtain ⟨new, hnew⟩ := requests_step h
  rw [hnew, List.length_append]
  exact Nat.le_add_right _ _

/-- A restriction that follows from how many requests there are in the end. -/
theorem reach_of_length_le {ok ok' : Session → Action → Prop}
    (h : Transition.Reach Session.step ok s t)
    (hok : ∀ u a, u.requests.length ≤ t.requests.length → ok u a → ok' u a) :
    Transition.Reach Session.step ok' s t := by
  induction h with
  | refl => exact .refl _
  | tail _ hstep_ok hstep ih =>
    have hlen := length_requests_le hstep
    exact .tail (ih fun u a hle => hok u a (hle.trans hlen)) (hok _ _ hlen hstep_ok) hstep

/-! ### The stream of a run -/

/-- A request is sent, or the requests and the stream stay as they are. -/
theorem stream_cases {a : Action} (hhandoff : a.isHandoff = false) (h : s.step a = some t) :
    (∃ call fails req, a = .send call fails ∧
        call.prepare s.conn.setupMaximumRequestLength = some req ∧
        t = s.sendRequest call req fails) ∨
      t.stream = s.stream ∧ t.requests = s.requests ∧ t.conn.out.request = s.conn.out.request ∧
        t.conn.setupMaximumRequestLength = s.conn.setupMaximumRequestLength := by
  have hsame : ∀ {t' : Session}, t'.stream = s.stream →
      (∃ socket queue queueLen written, t' = s.withOutput socket queue queueLen written) →
      t'.stream = s.stream ∧ t'.requests = s.requests ∧ t'.conn.out.request = s.conn.out.request ∧
        t'.conn.setupMaximumRequestLength = s.conn.setupMaximumRequestLength := by
    rintro t' hstream ⟨socket, queue, queueLen, written, rfl⟩
    exact ⟨hstream, rfl, rfl, rfl⟩
  cases a with
  | send call fails =>
    simp only [Session.step] at h
    split at h
    · cases h
    · split at h
      · next req hreq =>
        cases h
        exact .inl ⟨call, fails, req, rfl, hreq, rfl⟩
      · cases h
        exact .inr ⟨rfl, rfl, rfl, rfl⟩
  | flush =>
    simp only [Session.step] at h
    split at h
    · cases h
    · cases h
      exact .inr (hsame (stream_flushTo s _) (flushTo_eq s _))
  | awaitReply cookie =>
    simp only [Session.step] at h
    split at h
    · cases h
    · cases h
      exact .inr (hsame (stream_awaitReply s cookie) (awaitReply_eq s cookie))
  | takeSocket => cases hhandoff
  | writev => cases hhandoff
  | getSocketBack => cases hhandoff
  | _ =>
    right
    cases step_cases h
    exact ⟨rfl, rfl, rfl, rfl⟩

/-- The bytes of all requests. -/
def encodings (s : Session) : List UInt8 := s.requests.flatMap Request.encoding

theorem encodings_syncRequests (number : BitVec 64) (fails : ℕ → Bool) (count : ℕ) :
    (syncRequests number fails count).flatMap Request.encoding =
      (List.replicate count syncReq).flatten := by
  induction count generalizing number with
  | zero => rfl
  | succ count ih =>
    rw [syncRequests, List.flatMap_cons, ih, List.replicate_succ, List.flatten_cons]

theorem encodings_sendRequest (s : Session) (call : SendCall) (req : PreparedRequest)
    (fails : ℕ → Bool) : (s.sendRequest call req fails).encodings =
      s.encodings ++ (List.replicate (s.conn.numberRequest req).2 syncReq).flatten ++
        req.encoding := by
  rw [encodings, requests_sendRequest, newRequests, List.flatMap_append, List.flatMap_append,
    encodings_syncRequests, List.flatMap_singleton, ← List.append_assoc]
  rfl

/-- With one `GetInputFocus` or none, what is written is what was numbered. -/
theorem stream_step {a : Action} (h : s.stream = s.encodings) (hhandoff : a.isHandoff = false)
    (hsingle : ∀ call fails, a = .send call fails →
      ∀ req ∈ call.prepare s.conn.setupMaximumRequestLength, ¬ s.conn.DoubleSync call.isvoid)
    (hstep : s.step a = some t) : t.stream = t.encodings := by
  rcases stream_cases hhandoff hstep with ⟨call, fails, req, rfl, hreq, rfl⟩ |
    ⟨hstream, hreqs, -⟩
  · have hone : (s.conn.numberRequest req).2 ≤ 1 :=
      numberRequest_snd_le_one (by
        rw [isvoid_of_prepare hreq]
        exact hsingle call fails rfl req hreq)
    rw [stream_sendRequest, encodings_sendRequest, h]
    rcases Nat.le_one_iff_eq_zero_or_eq_one.mp hone with hcount | hcount
    · simp [hcount]
    · simp [hcount]
  · rw [hstream, h, encodings, encodings, hreqs]

/-- Writing is all or nothing: what is in the queue goes out together with everything numbered so
far. -/
theorem socket_writeBlock (s : Session) (parts : List (List UInt8)) :
    (s.writeBlock parts).socket = s.socket ∧
        (s.writeBlock parts).conn.out.requestWritten = s.conn.out.requestWritten ∨
      (s.writeBlock parts).socket = (s.writeBlock parts).stream ∧
        (s.writeBlock parts).conn.out.requestWritten = s.conn.out.request := by
  obtain ⟨queue, queueLen, hout⟩ := out_writeBlock_eq s.conn.out parts
  by_cases h : (s.conn.out.writeBlock parts).2 = []
  · left
    simp only [Session.writeBlock, h, if_true, hout, and_self]
  · right
    have hzero := queueLen_writeBlock h
    rw [hout] at hzero
    change queueLen = 0 at hzero
    simp only [Session.writeBlock, if_neg h, Session.stream, Session.outSend, hout]
    rw [hzero, List.take_zero, List.append_nil]
    exact ⟨rfl, trivial⟩

theorem socket_flushTo (s : Session) (request : BitVec 64) :
    s.flushTo request = s ∨
      (s.flushTo request).socket = (s.flushTo request).stream ∧
        (s.flushTo request).conn.out.requestWritten = s.conn.out.request := by
  unfold Session.flushTo
  split
  · exact .inl rfl
  · split
    · right
      exact ⟨(List.append_nil _).symm, rfl⟩
    · exact .inl rfl

theorem socket_step {a : Action} (hhandoff : a.isHandoff = false) (h : s.step a = some t) :
    t.socket = s.socket ∧ t.conn.out.requestWritten = s.conn.out.requestWritten ∨
      t.socket = t.stream ∧ t.conn.out.requestWritten = t.conn.out.request := by
  have hflush : ∀ request, (s.flushTo request).conn.out.request = s.conn.out.request := by
    intro request
    obtain ⟨socket, queue, queueLen, written, hout⟩ := flushTo_eq s request
    rw [hout]
    rfl
  have hflushed : ∀ request,
      (s.flushTo request).socket = s.socket ∧
          (s.flushTo request).conn.out.requestWritten = s.conn.out.requestWritten ∨
        (s.flushTo request).socket = (s.flushTo request).stream ∧
          (s.flushTo request).conn.out.requestWritten = (s.flushTo request).conn.out.request := by
    intro request
    rcases socket_flushTo s request with hsame | hall
    · rw [hsame]
      exact .inl ⟨rfl, rfl⟩
    · rw [hflush]
      exact .inr hall
  cases a with
  | send call fails =>
    rcases stream_cases hhandoff h with ⟨call, fails, req, -, -, rfl⟩ | hsame
    · have hnumber : (s.number call req fails).socket = s.socket ∧
          (s.number call req fails).conn.out.requestWritten = s.conn.out.requestWritten := by
        rw [number_eq, numberRequest_fst]
        exact ⟨rfl, rfl⟩
      have hrequest : (s.sendRequest call req fails).conn.out.request =
          (s.number call req fails).conn.out.request := by
        obtain ⟨socket, queue, queueLen, written, hout⟩ := sendRequest_eq s call req fails
        rw [hout]
        rfl
      rw [hrequest, ← hnumber.1, ← hnumber.2]
      exact socket_writeBlock (s.number call req fails) _
    · simp only [Session.step] at h
      split at h
      · cases h
      · split at h
        · cases h
          have hlen := congrArg List.length hsame.2.1
          rw [requests_sendRequest, List.length_append, length_newRequests] at hlen
          omega
        · cases h
          exact .inl ⟨rfl, rfl⟩
  | flush =>
    simp only [Session.step] at h
    split at h
    · cases h
    · cases h
      exact hflushed _
  | awaitReply cookie =>
    simp only [Session.step] at h
    split at h
    · cases h
    · cases h
      unfold Session.awaitReply
      split
      · exact .inl ⟨rfl, rfl⟩
      · exact hflushed _
  | takeSocket => cases hhandoff
  | writev => cases hhandoff
  | getSocketBack => cases hhandoff
  | _ =>
    left
    cases step_cases h
    exact ⟨rfl, rfl⟩

/-- The first `w` requests have been written, and the rest is in the queue. -/
structure Written (s : Session) (w : ℕ) : Prop where
  le : w ≤ s.requests.length
  requestWritten : s.conn.out.requestWritten = BitVec.ofNat 64 w
  socket : s.socket = (s.requests.take w).flatMap Request.encoding
  stream : s.stream = s.encodings

variable {w : ℕ}

theorem written_init (size : ℕ) (maximum : BitVec 16) : (Session.init size maximum).Written 0 :=
  ⟨Nat.le_refl 0, rfl, rfl, rfl⟩

/-- What is written stays written. -/
theorem Written.step {a : Action} (h : s.Written w) (hhandoff : a.isHandoff = false)
    (hsingle : ∀ call fails, a = .send call fails →
      ∀ req ∈ call.prepare s.conn.setupMaximumRequestLength, ¬ s.conn.DoubleSync call.isvoid)
    (hrequest : t.conn.out.request = BitVec.ofNat 64 t.requests.length)
    (hstep : s.step a = some t) : ∃ w' ≥ w, t.Written w' := by
  have hstream := stream_step h.stream hhandoff hsingle hstep
  have hlen := length_requests_le hstep
  rcases socket_step hhandoff hstep with ⟨hsocket, hwritten⟩ | ⟨hsocket, hwritten⟩
  · refine ⟨w, Nat.le_refl w, h.le.trans hlen, hwritten.trans h.requestWritten, ?_, hstream⟩
    obtain ⟨new, hnew⟩ := requests_step hstep
    rw [hsocket, h.socket, hnew, List.take_append_of_le_length h.le]
  · refine ⟨_, h.le.trans hlen, Nat.le_refl _, hwritten.trans hrequest, ?_, hstream⟩
    rw [hsocket, hstream, List.take_length]
    rfl

theorem Written.handed (h : s.Written w) {n : ℕ} (hn : n ≤ w) : s.handed n = true := by
  have hlen : ((s.requests.take n).flatMap Request.encoding).length ≤
      ((s.requests.take w).flatMap Request.encoding).length :=
    ((List.take_sublist_take_left hn).flatMap Request.encoding).length_le
  simp only [Session.handed, Bool.and_eq_true, decide_eq_true_eq]
  rw [h.socket]
  exact ⟨hn.trans h.le, hlen⟩

end Session

end Xcb
