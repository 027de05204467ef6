import Xcb.Words

/-!
# What `xcb_send_request` returns

Sequence numbers have 64 bits, and the caller is given 32 of them. `0` says that the request was not
sent, so no request may have a number whose low 32 bits are `0`. The loop that should skip such
numbers tests the whole number, which is `0` only once in `2 ^ 64` requests.

## Main definitions

* `Session.sendCall` — the whole of `xcb_send_request`, with its return value
* `Session.ZeroMeansFailure` — it returns `0` exactly when the request is not in the output stream
* `XcbConnection.WrapsTo` — the next request is given a number whose low 32 bits are `0`

## Main results

* `Session.zeroMeansFailure_iff` — the calls for which it does
* `Session.not_zeroMeansFailure_wrap` — request number `2 ^ 32`
-/

namespace Xcb

variable {τ β : Type}

/-! ### The call -/

namespace Session

/-- `_xcb_out_send`, while the socket takes `n` bytes and then fails. -/
def failSend (s : Session) (vector : List Iovec) (n : ℕ) : Session :=
  { s with
    socket := s.socket ++ (gather s.conn.out.queue vector).take n
    conn := { s.conn.shutdown with
      out := { s.conn.out with requestWritten := s.conn.out.request } } }

/-- `get_socket_back`, whether or not the socket is taken. -/
def regainSocket (s : Session) : Session :=
  if s.conn.out.returnSocket.isSome then s.getSocketBack else s

/-- From `write_block` to the end: the return value, and the new state. `room` is how many bytes
the socket takes before it fails, if it does. -/
def deliver (s : Session) (vector : List (List UInt8)) (room : Option ℕ) : BitVec 32 × Session :=
  let (out, rest) := s.conn.out.writeBlock vector
  let s := { s with conn := { s.conn with out := out } }
  if rest = [] then (low32 s.conn.out.request, s)
  else
    match room with
    | some n =>
      if n < (gather s.conn.out.queue rest).length then (0, s.failSend rest n)
      else (low32 s.conn.out.request, s.outSend rest)
    | none => (low32 s.conn.out.request, s.outSend rest)

/-- `xcb_send_request`, while no one else writes. -/
def sendCall (s : Session) (call : SendCall) (fails : ℕ → Bool) (room : Option ℕ) :
    BitVec 32 × Session :=
  if s.conn.hasError then (0, s)
  else match call.prepare s.conn.setupMaximumRequestLength with
    | none => (0, { s with conn := s.conn.shutdown })
    | some req =>
      let s := s.regainSocket
      (s.number call req fails).deliver (req.vector ((s.conn.numberRequest req).2 ≠ 0)) room

/-- The request was numbered, and all of its bytes are in the output stream, behind those of a
`GetInputFocus` if there was one to send. -/
def Delivered (s t : Session) (call : SendCall) : Prop :=
  s.requests.length < t.requests.length ∧
    ∃ req, call.prepare s.conn.setupMaximumRequestLength = some req ∧
      t.stream = s.stream ++
        (if (s.regainSocket.conn.numberRequest req).2 ≠ 0 then syncReq else []) ++ req.encoding

/-- `0` is returned exactly when the request is not delivered, and then the connection is in
error. -/
structure ZeroMeansFailure (s : Session) (call : SendCall) (fails : ℕ → Bool) (room : Option ℕ) :
    Prop where
  zero_iff : (s.sendCall call fails room).1 = 0 ↔
    ¬ s.Delivered (s.sendCall call fails room).2 call
  hasError : ¬ s.Delivered (s.sendCall call fails room).2 call →
    (s.sendCall call fails room).2.conn.hasError = true

end Session

/-! ### The number -/

/-- Is a `GetInputFocus` due before a request of this kind, because of how many there were without
an answer? -/
def XcbConnection.Due (c : XcbConnection τ β) (isvoid : Bool) : Prop :=
  isvoid = true ∧ c.out.request + 1 = c.inp.requestExpected + 65535

/-- The next request of this kind gets a number that is a multiple of `2 ^ 32`, but not `0`. -/
def XcbConnection.WrapsTo (c : XcbConnection τ β) (isvoid : Bool) : Prop :=
  ¬ c.Due isvoid ∧ c.out.request + 1 ≠ 0 ∧ low32 (c.out.request + 1) = 0 ∨
    c.Due isvoid ∧ c.out.request + 2 ≠ 0 ∧ low32 (c.out.request + 2) = 0

theorem needsSync_iff (c : XcbConnection τ β) (isvoid : Bool) : c.needsSync isvoid = true ↔
    isvoid = true ∧ c.out.request = c.inp.requestExpected + 65535 ∨ c.out.request = 0 := by
  have hwindow : ∀ e : BitVec 64, e + 65536#64 - 1#64 = e + 65535 := by
    intro e
    bv_omega
  change (isvoid && c.out.request == c.inp.requestExpected + 65536#64 - 1#64 ||
    c.out.request == 0#64) = true ↔ _
  rw [hwindow]
  simp only [Bool.or_eq_true, Bool.and_eq_true, beq_iff_eq]
  rfl

/-- **The number** has no low bits left in the states of `WrapsTo`, and in no others. -/
theorem low32_request_eq_zero_iff (c : XcbConnection τ β) (req : PreparedRequest) :
    low32 (c.numberRequest req).1.out.request = 0 ↔ c.WrapsTo req.isvoid := by
  have hfirst : c.nextRequest.needsSync req.isvoid = true ↔
      c.Due req.isvoid ∨ c.out.request + 1 = 0 := needsSync_iff _ _
  have hsecond : c.nextRequest.insertSync.needsSync req.isvoid = true ↔
      req.isvoid = true ∧ c.out.request + 1 + 1 = c.out.request + 1 + 65535 ∨
        c.out.request + 1 + 1 = 0 := needsSync_iff _ _
  have hadd : c.out.request + 1 + 1 = c.out.request + 2 := by bv_omega
  have hfar : c.out.request + 2 ≠ c.out.request + 1 + 65535 := by bv_omega
  have hone : low32 1 ≠ 0 := by decide
  rw [hadd] at hsecond
  cases h0 : c.nextRequest.needsSync req.isvoid with
  | false =>
    have hnumber : (c.numberRequest req).1.out.request = c.out.request + 1 := by
      rw [XcbConnection.numberRequest, XcbConnection.syncLoop, h0]
      rfl
    rw [h0] at hfirst
    obtain ⟨hdue, hzero⟩ := not_or.mp (fun h => Bool.false_ne_true (hfirst.mpr h))
    rw [hnumber]
    constructor
    · intro hlow
      exact .inl ⟨hdue, hzero, hlow⟩
    · rintro (⟨-, -, hlow⟩ | ⟨hdue', -⟩)
      · exact hlow
      · exact absurd hdue' hdue
  | true =>
    have hdue := hfirst.mp h0
    cases h1 : c.nextRequest.insertSync.needsSync req.isvoid with
    | false =>
      have hnumber : (c.numberRequest req).1.out.request = c.out.request + 2 := by
        rw [XcbConnection.numberRequest, XcbConnection.syncLoop, h0, if_pos rfl,
          XcbConnection.syncLoop, h1, ← hadd]
        rfl
      rw [h1] at hsecond
      have hzero : c.out.request + 2 ≠ 0 :=
        fun h => Bool.false_ne_true (hsecond.mpr (.inr h))
      rw [hnumber]
      rcases hdue with hdue | hwrap
      · constructor
        · intro hlow
          exact .inr ⟨hdue, hzero, hlow⟩
        · rintro (⟨hdue', -⟩ | ⟨-, -, hlow⟩)
          · exact absurd hdue hdue'
          · exact hlow
      · have htwo : c.out.request + 2 = 1 := by bv_omega
        rw [htwo]
        refine iff_of_false hone ?_
        rintro (⟨-, hne, -⟩ | ⟨-, -, hlow⟩)
        · exact hne hwrap
        · rw [htwo] at hlow
          exact hone hlow
    | true =>
      have hzero : c.out.request + 2 = 0 := (hsecond.mp h1).resolve_left fun h => hfar h.2
      have hnumber : (c.numberRequest req).1.out.request = c.out.request + 2 + 1 := by
        rw [XcbConnection.numberRequest, XcbConnection.syncLoop, h0, if_pos rfl,
          XcbConnection.syncLoop, h1, if_pos rfl, ← hadd]
        rfl
      rw [hnumber, hzero]
      refine iff_of_false hone ?_
      rintro (⟨-, -, hlow⟩ | ⟨-, hne, -⟩)
      · have hlast : c.out.request + 1 = -1 := by bv_omega
        rw [hlast] at hlow
        exact absurd hlow (by decide)
      · exact hne hzero

/-! ### The result -/

namespace Session

variable {s : Session} {call : SendCall}

/-- Either the vector is in the output stream, or the socket failed before its end. -/
theorem deliver_cases (s : Session) (vector : List (List UInt8)) (room : Option ℕ) :
    (s.deliver vector room).1 = low32 s.conn.out.request ∧
        (s.deliver vector room).2 = s.writeBlock vector ∨
      room ≠ none ∧ (s.deliver vector room).1 = 0 ∧
        (s.deliver vector room).2.stream.length < (s.stream ++ vector.flatten).length ∧
        (s.deliver vector room).2.conn.hasError = true := by
  obtain ⟨queue, queueLen, hout⟩ := out_writeBlock_eq s.conn.out vector
  have hrequest : (s.conn.out.writeBlock vector).1.request = s.conn.out.request := by rw [hout]
  by_cases hrest : (s.conn.out.writeBlock vector).2 = []
  · left
    simp only [deliver, Session.writeBlock, hrest, if_true, hrequest, and_self]
  · cases room with
    | none =>
      left
      simp only [deliver, Session.writeBlock, if_neg hrest, hrequest, and_self]
    | some n =>
      simp only [deliver, Session.writeBlock, if_neg hrest, hrequest]
      split
      · next hlt =>
        right
        have hgather := gather_writeBlock_of_ne_nil hrest
        rw [hgather] at hlt
        refine ⟨Option.some_ne_none n, rfl, ?_, rfl⟩
        change (s.socket ++ (gather (s.conn.out.writeBlock vector).1.queue
          (s.conn.out.writeBlock vector).2).take n ++ (s.conn.out.writeBlock vector).1.queue.take
            (s.conn.out.writeBlock vector).1.queueLen).length < _
        rw [queueLen_writeBlock hrest, List.take_zero, List.append_nil, hgather, Session.stream]
        simp only [List.length_append, List.length_take] at hlt ⊢
        simp only [XcbOut.queued, List.length_take] at hlt ⊢
        omega
      · exact .inl ⟨rfl, rfl⟩

/-- Getting the socket back changes neither the stream nor a counter. -/
theorem regainSocket_eq (s : Session) : ∃ pendingReplies returnSocket, s.regainSocket =
    { s with
      conn := { s.conn with
        inp := { s.conn.inp with pendingReplies := pendingReplies }
        out := { s.conn.out with returnSocket := returnSocket } } } := by
  unfold regainSocket
  split
  · obtain ⟨pendingReplies, h⟩ := XcbIn.repliesDone_eq s.conn.inp s.conn.out.request
    exact ⟨pendingReplies, none, by rw [getSocketBack, h]⟩
  · exact ⟨s.conn.inp.pendingReplies, s.conn.out.returnSocket, rfl⟩

theorem wrapsTo_regainSocket (s : Session) (isvoid : Bool) :
    s.regainSocket.conn.WrapsTo isvoid ↔ s.conn.WrapsTo isvoid := by
  obtain ⟨pendingReplies, returnSocket, h⟩ := regainSocket_eq s
  rw [h]
  rfl

/-- A call on a connection in error, or for a request that cannot be sent. -/
theorem zeroMeansFailure_of_refused (fails : ℕ → Bool) (room : Option ℕ)
    (h : s.conn.hasError = true ∨ call.prepare s.conn.setupMaximumRequestLength = none) :
    s.ZeroMeansFailure call fails room := by
  obtain ⟨conn, hcall, herror⟩ : ∃ conn, s.sendCall call fails room = (0, { s with conn := conn }) ∧
      conn.hasError = true := by
    by_cases herror : s.conn.hasError = true
    · exact ⟨s.conn, by rw [sendCall, if_pos herror], herror⟩
    · refine ⟨s.conn.shutdown, ?_, rfl⟩
      rw [sendCall, if_neg herror, h.resolve_left herror]
  have hnot : ¬ s.Delivered (s.sendCall call fails room).2 call := by
    rintro ⟨hlength, -⟩
    rw [hcall] at hlength
    exact absurd hlength (lt_irrefl _)
  refine ⟨iff_of_true ?_ hnot, fun _ => ?_⟩
  · rw [hcall]
  · rw [hcall]
    exact herror

/-- A call that is numbered. -/
theorem sendCall_cases {req : PreparedRequest} (fails : ℕ → Bool) (room : Option ℕ)
    (herror : s.conn.hasError = false)
    (hreq : call.prepare s.conn.setupMaximumRequestLength = some req) :
    ((s.sendCall call fails room).1 = 0 ↔ s.conn.WrapsTo req.isvoid) ∧
        s.Delivered (s.sendCall call fails room).2 call ∨
      room ≠ none ∧ (s.sendCall call fails room).1 = 0 ∧
        ¬ s.Delivered (s.sendCall call fails room).2 call ∧
        (s.sendCall call fails room).2.conn.hasError = true := by
  set u := s.regainSocket with hu
  obtain ⟨pendingReplies, returnSocket, hregain⟩ := regainSocket_eq s
  have hstream : (u.number call req fails).stream = s.stream := by
    rw [hu, hregain]
    simp only [Session.stream, Session.number, numberRequest_fst]
  have hlength : s.requests.length < (u.number call req fails).requests.length := by
    rw [number_eq, hu, hregain]
    change _ < (s.requests ++ newRequests _ _ _ _ _).length
    rw [List.length_append, length_newRequests]
    omega
  have hnumber : (u.number call req fails).conn.out.request =
      (u.conn.numberRequest req).1.out.request := by
    rw [Session.number]
  have hcall : s.sendCall call fails room = (u.number call req fails).deliver
      (req.vector ((u.conn.numberRequest req).2 ≠ 0)) room := by
    rw [sendCall, if_neg (by simp [herror]), hreq]
  rw [hcall]
  rcases deliver_cases (u.number call req fails)
    (req.vector ((u.conn.numberRequest req).2 ≠ 0)) room with
    ⟨hcookie, hout⟩ | ⟨hroom, hcookie, hshort, herror'⟩
  · left
    rw [hcookie, hout, hnumber, low32_request_eq_zero_iff, hu, wrapsTo_regainSocket]
    refine ⟨Iff.rfl, ?_, req, hreq, ?_⟩
    · obtain ⟨socket, queue, queueLen, written, heq⟩ := writeBlock_eq (u.number call req fails)
        (req.vector ((u.conn.numberRequest req).2 ≠ 0))
      rw [← hu, heq]
      exact hlength
    · rw [stream_writeBlock, ← hu, hstream, flatten_vector, List.append_assoc]
      simp only [decide_eq_true_eq]
  · right
    refine ⟨hroom, hcookie, ?_, herror'⟩
    rintro ⟨-, req', hreq', hdelivered⟩
    rw [hreq] at hreq'
    cases hreq'
    rw [hdelivered, hstream, flatten_vector, ← hu, List.append_assoc] at hshort
    simp only [decide_eq_true_eq, lt_self_iff_false] at hshort

/-- **Zero means failure**, however the socket behaves, for the calls that fail in any case and
for those in a state that does not lead to a number with 32 low bits `0`. -/
theorem zeroMeansFailure_iff (s : Session) (call : SendCall) :
    (∀ fails room, s.ZeroMeansFailure call fails room) ↔
      s.conn.hasError = true ∨ call.prepare s.conn.setupMaximumRequestLength = none ∨
        ¬ s.conn.WrapsTo call.isvoid := by
  by_cases herror : s.conn.hasError = true
  · exact iff_of_true (fun fails room => zeroMeansFailure_of_refused fails room (.inl herror))
      (.inl herror)
  · cases hreq : call.prepare s.conn.setupMaximumRequestLength with
    | none =>
      exact iff_of_true (fun fails room => zeroMeansFailure_of_refused fails room (.inr hreq))
        (.inr (.inl rfl))
    | some req =>
      rw [Bool.not_eq_true] at herror
      rw [herror, ← isvoid_of_prepare hreq]
      constructor
      · intro h
        refine .inr (.inr fun hwraps => ?_)
        rcases sendCall_cases (fun _ => false) none herror hreq with
          ⟨hcookie, hdelivered⟩ | ⟨hroom, -⟩
        · exact (h (fun _ => false) none).zero_iff.mp (hcookie.mpr hwraps) hdelivered
        · exact hroom rfl
      · intro h fails room
        have hwraps := (h.resolve_left Bool.false_ne_true).resolve_left nofun
        rcases sendCall_cases fails room herror hreq with
          ⟨hcookie, hdelivered⟩ | ⟨-, hcookie, hnot, herror'⟩
        · refine ⟨⟨fun hzero => absurd (hcookie.mp hzero) hwraps, fun hnot => ?_⟩, fun hnot => ?_⟩
          · exact absurd hdelivered hnot
          · exact absurd hdelivered hnot
        · exact ⟨iff_of_true hcookie hnot, fun _ => herror'⟩

/-- **Request number `2 ^ 32`** is sent, and `0` returned for it. -/
theorem not_zeroMeansFailure_wrap :
    ∃ s : Session, Transition.Reach Session.step (fun _ _ => True) (Session.init 16384 65535) s ∧
      s.conn.hasError = false ∧ ¬ s.ZeroMeansFailure (wordCall false) (fun _ => false) none := by
  have hok : AllowsWords fun _ _ => True :=
    ⟨fun _ _ _ => trivial, fun _ => trivial, fun _ => trivial, fun _ _ => trivial, fun _ => trivial⟩
  obtain ⟨s, hreach, hs⟩ : ∃ s, Transition.Reach Session.step (fun _ _ => True)
      (Session.init 16384 65535) s ∧ s.Words (fun _ => false) (2 ^ 32 - 1) 0 0
        (BitVec.ofNat 64 (2 ^ 32 - 1)) :=
    (words_init (fun _ => false) 16384).reach_asking hok (by norm_num) (by norm_num)
      fun _ _ _ => rfl
  refine ⟨s, hreach, hs.hasError, fun hzero => ?_⟩
  have hreq : (wordCall false).prepare s.conn.setupMaximumRequestLength =
      some (wordRequest false) := by
    rw [hs.maximum]
    exact prepare_wordCall false
  have hwraps : s.conn.WrapsTo (wordRequest false).isvoid := by
    refine .inl ⟨fun hdue => Bool.false_ne_true hdue.1, ?_, ?_⟩
    · rw [hs.request]
      decide
    · rw [hs.request]
      decide
  rcases sendCall_cases (fun _ => false) none hs.hasError hreq with
    ⟨hcookie, hdelivered⟩ | ⟨hroom, -⟩
  · exact hzero.zero_iff.mp (hcookie.mpr hwraps) hdelivered
  · exact hroom rfl

end Session

end Xcb
