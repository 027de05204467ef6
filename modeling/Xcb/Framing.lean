import Xcb.Internal.Frames
import Xcb.Words

/-!
# Framing

A server finds the end of a request by its length field: 16 bits that count words, or, when these
are zero, the 32 bits behind them. `xcb_send_request` writes the field, and writes the first words
of a request in one of four ways: with a `GetInputFocus` before them or not, and with a second
length word between them or not. The result is that a server finds exactly the requests that were
sent, unless two `GetInputFocus` fall due at once: only one is written then.

## Main definitions

* `frameSize` — the rule of the protocol
* `SendCall.frame` — the bytes of a request, in terms of the bytes of the caller
* `Session.RoundTrips` — a server finds the requests that were sent

## Main results

* `encoding_eq_frame` — `prepare` produces this frame
* `delimits_frame` — which announces its own length
* `Session.roundTrips_iff` — when a server finds the requests that were sent
-/

namespace Xcb

/-! ### Words -/

theorem ofBytes_bytes16 (a : BitVec 16) : ofBytes (bytes16 a) = a.toNat := by
  have := a.isLt
  simp only [bytes16, ofBytes, UInt8.toNat_ofNat']
  omega

theorem ofBytes_bytes32 (a : BitVec 32) : ofBytes (bytes32 a) = a.toNat := by
  have := a.isLt
  simp only [bytes32, ofBytes, UInt8.toNat_ofNat']
  omega

/-! ### The rule of the protocol -/

/-- The length of the request at the head of a stream, in bytes. -/
def frameSize (stream : List UInt8) : ℕ :=
  let shortlen := ofBytes ((stream.drop 2).take 2)
  4 * if shortlen = 0 then ofBytes ((stream.drop 4).take 4) else shortlen

theorem frameSize_of_short {a b : UInt8} {len : BitVec 16} (h : len ≠ 0) (rest : List UInt8) :
    frameSize (a :: b :: (bytes16 len ++ rest)) = 4 * len.toNat := by
  have hlen : ((a :: b :: (bytes16 len ++ rest)).drop 2).take 2 = bytes16 len := rfl
  have hne : len.toNat ≠ 0 := fun hz => h (BitVec.toNat_inj.mp hz)
  rw [frameSize, hlen, ofBytes_bytes16, if_neg hne]

theorem frameSize_of_long {a b : UInt8} (len : BitVec 32) (rest : List UInt8) :
    frameSize (a :: b :: (bytes16 0 ++ (bytes32 len ++ rest))) = 4 * len.toNat := by
  have hlen : ((a :: b :: (bytes16 0 ++ (bytes32 len ++ rest))).drop 4).take 4 = bytes32 len := rfl
  have hshort : ofBytes (((a :: b :: (bytes16 0 ++ (bytes32 len ++ rest))).drop 2).take 2) = 0 :=
    rfl
  rw [frameSize, hshort, if_pos rfl, hlen, ofBytes_bytes32]

theorem delimits_syncReq : Frames.Delimits frameSize syncReq :=
  ⟨by decide, fun rest =>
    (frameSize_of_short (by decide) rest : frameSize (43 :: 0 :: (bytes16 1 ++ rest)) = 4 * 1)⟩

/-! ### The frame of a call -/

/-- All bytes of the caller. -/
def SendCall.bytes (call : SendCall) : List UInt8 := (call.vector.map Part.memory).flatten

/-- The length fields. -/
def SendCall.lengthField (call : SendCall) (setupMaximum : BitVec 16) : List UInt8 :=
  if call.longlen ≤ setupMaximum.toNat then bytes16 (BitVec.ofNat 16 call.longlen)
  else bytes16 0 ++ bytes32 (BitVec.ofNat 32 (call.longlen + 1))

/-- The request on the wire: the caller's bytes, with opcode and length fields. Only a request of an
extension has a minor opcode. -/
def SendCall.frame (call : SendCall) (setupMaximum : BitVec 16) (major : UInt8)
    (minor : Option UInt8) : List UInt8 :=
  major :: minor.getD (call.bytes.getD 1 0) :: (call.lengthField setupMaximum ++ call.bytes.drop 4)

section frame

variable {call : SendCall} {setupMaximum : BitVec 16}

theorem length_bytes (hraw : hasFlag call.flags requestRaw = false) :
    call.bytes.length = 4 * call.longlen := by
  have haligned := call.aligned hraw
  have hlen : call.bytes.length = (call.vector.map Part.len).sum := by
    rw [SendCall.bytes, List.length_flatten, List.map_map]
    rfl
  rw [hlen, SendCall.longlen]
  omega

/-- The first word is there to be written to. -/
theorem exists_header (hraw : hasFlag call.flags requestRaw = false) :
    ∃ a b c d first rest, call.vector.map Part.memory = (a :: b :: c :: d :: first) :: rest := by
  obtain ⟨part, parts, hvec⟩ := List.exists_cons_of_ne_nil call.count_pos
  have hlen : 4 ≤ part.memory.length := call.header_le hraw part (by rw [hvec]; rfl)
  rw [hvec, List.map_cons]
  match part.memory, hlen with
  | a :: b :: c :: d :: first, _ => exact ⟨a, b, c, d, first, _, rfl⟩

theorem longlen_pos (hraw : hasFlag call.flags requestRaw = false) : 0 < call.longlen := by
  obtain ⟨a, b, c, d, first, rest, hparts⟩ := exists_header hraw
  have hlen := length_bytes hraw
  rw [SendCall.bytes, hparts] at hlen
  simp only [List.flatten_cons, List.length_append, List.length_cons] at hlen
  omega

theorem setHeader_cons (major : UInt8) (minor : Option UInt8) (shortlen : BitVec 16)
    (a b c d : UInt8) (first : List UInt8) (rest : List (List UInt8)) :
    setHeader major minor shortlen ((a :: b :: c :: d :: first) :: rest) =
      (major :: minor.getD b :: (bytes16 shortlen ++ first)) :: rest := by
  cases minor <;> rfl

/-- What `prepare` returns for a request that is not `RAW`. -/
theorem prepare_eq_some_iff (hraw : hasFlag call.flags requestRaw = false) {req : PreparedRequest}
    (h : call.prepare setupMaximum = some req) :
    ∃ major minor shortlen bigLength, call.opcodes = some (major, minor) ∧
      call.lengths setupMaximum = some (shortlen, bigLength) ∧ req.bigLength = bigLength ∧
      req.parts = setHeader major minor shortlen (call.vector.map Part.memory) := by
  simp only [SendCall.prepare, hraw, dite_true] at h
  split at h
  · next major minor shortlen bigLength hop hlen =>
    cases h
    exact ⟨major, minor, shortlen, bigLength, hop, hlen, rfl, rfl⟩
  · cases h

/-- **The bytes of a request** are the caller's, apart from opcode and length fields. -/
theorem encoding_eq_frame (hraw : hasFlag call.flags requestRaw = false)
    (hlong : call.longlen < 2 ^ 32 - 1) {req : PreparedRequest}
    (h : call.prepare setupMaximum = some req) :
    ∃ major minor, call.opcodes = some (major, minor) ∧
      req.encoding = call.frame setupMaximum major minor := by
  obtain ⟨major, minor, shortlen, bigLength, hop, hlen, hbig, hparts⟩ := prepare_eq_some_iff hraw h
  obtain ⟨a, b, c, d, first, rest, hvec⟩ := exists_header hraw
  refine ⟨major, minor, hop, ?_⟩
  have hbytes : call.bytes = a :: b :: c :: d :: (first ++ rest.flatten) := by
    rw [SendCall.bytes, hvec]
    rfl
  rw [hvec, setHeader_cons] at hparts
  simp only [SendCall.frame, hbytes, SendCall.lengthField, PreparedRequest.encoding, hbig, hparts]
  simp only [SendCall.lengths] at hlen
  split at hlen
  · next hle =>
    have hne : BitVec.ofNat 16 call.longlen ≠ 0 := by
      have hpos := longlen_pos hraw
      have hlt := setupMaximum.isLt
      intro hzero
      have := congrArg BitVec.toNat hzero
      rw [BitVec.toNat_ofNat, Nat.mod_eq_of_lt (by omega)] at this
      change call.longlen = 0 at this
      omega
    rw [if_neg hne] at hlen
    cases hlen
    rw [if_neg (by simp), if_pos hle]
    simp
  · next hgt =>
    split at hlen
    · cases hlen
    · cases hlen
      have hne : BitVec.ofNat 32 (call.longlen + 1) ≠ 0 := by
        intro hzero
        have := congrArg BitVec.toNat hzero
        rw [BitVec.toNat_ofNat, Nat.mod_eq_of_lt (by omega)] at this
        change call.longlen + 1 = 0 at this
        omega
      rw [if_pos hne, if_neg hgt]
      rfl

/-- **A frame announces its own length.** -/
theorem delimits_frame (hraw : hasFlag call.flags requestRaw = false)
    (hlong : call.longlen < 2 ^ 32 - 1) (major : UInt8) (minor : Option UInt8) :
    Frames.Delimits frameSize (call.frame setupMaximum major minor) := by
  have hpos := longlen_pos hraw
  have hdrop : (call.bytes.drop 4).length = 4 * call.longlen - 4 := by
    rw [List.length_drop, length_bytes hraw]
  by_cases hle : call.longlen ≤ setupMaximum.toNat
  · have hlt := setupMaximum.isLt
    have hnat : (BitVec.ofNat 16 call.longlen).toNat = call.longlen := by
      rw [BitVec.toNat_ofNat, Nat.mod_eq_of_lt (by omega)]
    have hne : BitVec.ofNat 16 call.longlen ≠ 0 := by
      intro hzero
      rw [hzero] at hnat
      change 0 = call.longlen at hnat
      omega
    have hlen : (call.frame setupMaximum major minor).length = 4 * call.longlen := by
      simp only [SendCall.frame, SendCall.lengthField, if_pos hle, bytes16, List.length_cons,
        List.length_append, List.length_nil, hdrop]
      omega
    refine ⟨by omega, fun rest => ?_⟩
    have hsize := frameSize_of_short (a := major) (b := minor.getD (call.bytes.getD 1 0)) hne
      (call.bytes.drop 4 ++ rest)
    rw [hlen, ← hnat, ← hsize, SendCall.frame, SendCall.lengthField, if_pos hle]
    simp only [List.cons_append, List.append_assoc]
  · have hnat : (BitVec.ofNat 32 (call.longlen + 1)).toNat = call.longlen + 1 := by
      rw [BitVec.toNat_ofNat, Nat.mod_eq_of_lt (by omega)]
    have hlen : (call.frame setupMaximum major minor).length = 4 * (call.longlen + 1) := by
      simp only [SendCall.frame, SendCall.lengthField, if_neg hle, bytes16, bytes32,
        List.length_cons, List.length_append, List.length_nil, hdrop]
      omega
    refine ⟨by omega, fun rest => ?_⟩
    have hsize := frameSize_of_long (a := major) (b := minor.getD (call.bytes.getD 1 0))
      (BitVec.ofNat 32 (call.longlen + 1)) (call.bytes.drop 4 ++ rest)
    rw [hlen, ← hnat, ← hsize, SendCall.frame, SendCall.lengthField, if_neg hle]
    simp only [List.cons_append, List.append_assoc]

end frame

/-! ### Runs -/

/-- The call a request was made by. -/
def Request.call? (r : Request) : Option SendCall :=
  match r.source with
  | .call call => some call
  | _ => none

/-- The call of an action. -/
def Action.call? : Action → Option SendCall
  | .send call _ => some call
  | _ => none

/-- A request on the wire is what it should be: a `GetInputFocus` of one word, or the frame of its
call. -/
def Request.Framed (setupMaximum : BitVec 16) (r : Request) : Prop :=
  match r.source with
  | .sync => r.encoding = syncReq
  | .call call => call.longlen < 2 ^ 32 - 1 ∧ hasFlag call.flags requestRaw = false ∧
      ∃ major minor, call.opcodes = some (major, minor) ∧
        r.encoding = call.frame setupMaximum major minor
  | .owner => False

theorem Request.Framed.delimits {setupMaximum : BitVec 16} {r : Request}
    (h : r.Framed setupMaximum) : Frames.Delimits frameSize r.encoding := by
  simp only [Request.Framed] at h
  split at h
  · rw [h]
    exact delimits_syncReq
  · obtain ⟨hlong, hraw, major, minor, -, henc⟩ := h
    rw [henc]
    exact delimits_frame hraw hlong major minor
  · exact h.elim

namespace Session

variable {s t : Session}

/-- Calls of `xcb_send_request` that succeed, none of them `RAW` or of `2 ^ 32 - 1` words or more,
and no socket handoff. -/
def Sends (s : Session) (a : Action) : Prop :=
  a.isHandoff = false ∧ ∀ call ∈ a.call?, hasFlag call.flags requestRaw = false ∧
    call.longlen < 2 ^ 32 - 1 ∧ (call.prepare s.conn.setupMaximumRequestLength).isSome = true

/-- And none of them inserts two `GetInputFocus`. -/
def SendsSingly (s : Session) (a : Action) : Prop :=
  Sends s a ∧ ∀ call ∈ a.call?, ¬ s.conn.DoubleSync call.isvoid

instance (s : Session) (a : Action) : Decidable (Sends s a) :=
  inferInstanceAs (Decidable (_ ∧ ∀ call ∈ a.call?, _))

instance (s : Session) (a : Action) : Decidable (SendsSingly s a) :=
  inferInstanceAs (Decidable (_ ∧ ∀ call ∈ a.call?, _))

/-- A server that cuts the stream by the rule of the protocol finds the requests, each with its
number; these are the calls in order, with the inserted `GetInputFocus`. -/
structure RoundTrips (setupMaximum : BitVec 16) (actions : List Action) (s : Session) : Prop where
  split : Frames.split frameSize s.stream.length s.stream = some (s.requests.map Request.encoding)
  calls : s.requests.filterMap Request.call? = actions.filterMap Action.call?
  number : ∀ n r, s.request? n = some r → r.number = BitVec.ofNat 64 n
  framed : ∀ r ∈ s.requests, r.Framed setupMaximum

/-- All of this but for the stream holds in any case. -/
structure Recorded (setupMaximum : BitVec 16) (actions : List Action) (s : Session) : Prop where
  maximum : s.conn.setupMaximumRequestLength = setupMaximum
  request : s.conn.out.request = BitVec.ofNat 64 s.requests.length
  calls : s.requests.filterMap Request.call? = actions.filterMap Action.call?
  number : ∀ n r, s.request? n = some r → r.number = BitVec.ofNat 64 n
  framed : ∀ r ∈ s.requests, r.Framed setupMaximum

variable {setupMaximum : BitVec 16} {actions : List Action}

/-- A call that is prepared is sent. -/
theorem sendRequest_of_step {call : SendCall} {fails : ℕ → Bool}
    (hsome : (call.prepare s.conn.setupMaximumRequestLength).isSome = true)
    (h : s.step (.send call fails) = some t) :
    ∃ req, call.prepare s.conn.setupMaximumRequestLength = some req ∧
      t = s.sendRequest call req fails := by
  obtain ⟨req, hreq⟩ := Option.isSome_iff_exists.mp hsome
  refine ⟨req, hreq, ?_⟩
  simp only [Session.step, hreq] at h
  split at h
  · cases h
  · exact (Option.some.inj h).symm

/-- All other steps leave the requests and the stream alone. -/
theorem stream_of_step {a : Action} (hhandoff : a.isHandoff = false) (hcall : a.call? = none)
    (h : s.step a = some t) :
    t.stream = s.stream ∧ t.requests = s.requests ∧ t.conn.out.request = s.conn.out.request ∧
      t.conn.setupMaximumRequestLength = s.conn.setupMaximumRequestLength := by
  rcases stream_cases hhandoff h with ⟨call, fails, req, rfl, -⟩ | hsame
  · cases hcall
  · exact hsame

theorem call?_of_newRequests (number : BitVec 64) (count : ℕ) (call : SendCall)
    (req : PreparedRequest) (fails : ℕ → Bool) :
    (newRequests number count call req fails).filterMap Request.call? = [call] := by
  have hsync : ∀ number fails, (syncRequests number fails count).filterMap Request.call? = [] := by
    intro number fails
    refine List.filterMap_eq_nil_iff.mpr fun r hr => ?_
    obtain ⟨i, hi⟩ := List.getElem?_of_mem hr
    rw [Request.call?, (getElem?_syncRequests hi).2.1]
  rw [newRequests, List.filterMap_append, hsync]
  rfl

theorem framed_of_newRequests {number : BitVec 64} {count : ℕ} {call : SendCall}
    {req : PreparedRequest} {fails : ℕ → Bool} (hraw : hasFlag call.flags requestRaw = false)
    (hlong : call.longlen < 2 ^ 32 - 1) (hreq : call.prepare setupMaximum = some req) {r : Request}
    (hr : r ∈ newRequests number count call req fails) : r.Framed setupMaximum := by
  rcases List.mem_append.mp hr with hr | hr
  · obtain ⟨i, hi⟩ := List.getElem?_of_mem hr
    obtain ⟨-, hsource, henc, -⟩ := getElem?_syncRequests hi
    rw [Request.Framed, hsource]
    exact henc
  · rw [List.mem_singleton.mp hr]
    exact ⟨hlong, hraw, encoding_eq_frame hraw hlong hreq⟩

theorem recorded_init (size : ℕ) (maximum : BitVec 16) :
    Recorded maximum [] (Session.init size maximum) := by
  refine ⟨rfl, rfl, rfl, ?_, ?_⟩
  · intro n r hr
    simp [Session.init, Session.request?] at hr
  · intro r hr
    cases hr

/-- One step of the record. -/
theorem Recorded.step {a : Action} (h : Recorded setupMaximum actions s) (hok : Sends s a)
    (hstep : s.step a = some t) : Recorded setupMaximum (actions ++ [a]) t := by
  obtain ⟨hhandoff, hcalls⟩ := hok
  cases hcall : a.call? with
  | none =>
    obtain ⟨-, hreqs, hnum, hmax⟩ := stream_of_step hhandoff hcall hstep
    refine ⟨hmax.trans h.maximum, by rw [hnum, h.request, hreqs], ?_, ?_,
      by rw [hreqs]; exact h.framed⟩
    · rw [hreqs, h.calls, List.filterMap_append]
      simp [hcall]
    · intro n r hr
      rw [Session.request?, hreqs] at hr
      exact h.number n r hr
  | some call =>
    obtain ⟨fails, rfl⟩ : ∃ fails, a = .send call fails := by
      cases a <;> cases hcall
      exact ⟨_, rfl⟩
    obtain ⟨hraw, hlong, hsome⟩ := hcalls call rfl
    obtain ⟨req, hreq, rfl⟩ := sendRequest_of_step hsome hstep
    have hnew := requests_sendRequest s call req fails
    obtain ⟨socket, queue, queueLen, written, hout⟩ := sendRequest_eq s call req fails
    refine ⟨?_, ?_, ?_, ?_, ?_⟩
    · rw [hout, number_eq, numberRequest_fst]
      exact h.maximum
    · rw [hnew, List.length_append, length_newRequests, hout, number_eq, numberRequest_fst]
      change s.conn.out.request + BitVec.ofNat 64 _ = _
      rw [h.request, ← BitVec.ofNat_add]
    · rw [hnew, List.filterMap_append, List.filterMap_append, h.calls, call?_of_newRequests]
      rfl
    · intro n r hr
      rcases Nat.lt_or_ge s.requests.length n with hlt | hle
      · obtain ⟨i, rfl⟩ : ∃ i, n = s.requests.length + i + 1 :=
          ⟨n - s.requests.length - 1, by omega⟩
        rw [request?_append_right hnew] at hr
        rw [number_of_newRequests hr, h.request, ← BitVec.ofNat_add, Nat.add_assoc]
      · rw [request?_append_left hnew hle] at hr
        exact h.number n r hr
    · intro r hr
      rw [hnew] at hr
      rcases List.mem_append.mp hr with hr | hr
      · exact h.framed r hr
      · rw [h.maximum] at hreq
        exact framed_of_newRequests hraw hlong hreq hr

theorem recorded_of_trace {size : ℕ} {maximum : BitVec 16}
    (h : Transition.Trace Session.step Sends (Session.init size maximum) actions s) :
    Recorded maximum actions s :=
  h.invariant (fun _ _ _ _ h hok hstep => h.step hok hstep) (recorded_init size maximum)

/-! ### The stream -/

theorem stream_step_of_single {a : Action} (h : s.stream = s.encodings) (hok : SendsSingly s a)
    (hstep : s.step a = some t) : t.stream = t.encodings :=
  stream_step h hok.1.1 (by
    rintro call fails rfl req -
    exact hok.2 call rfl) hstep

theorem stream_of_trace {size : ℕ} {maximum : BitVec 16}
    (h : Transition.Trace Session.step SendsSingly (Session.init size maximum) actions s) :
    s.stream = s.encodings :=
  h.reach.invariant (fun _ _ _ h hok hstep => stream_step_of_single h hok hstep) rfl

/-- What is missing from the stream stays missing. -/
theorem stream_step_of_missing {a : Action} (h : s.stream.length < s.encodings.length)
    (hok : Sends s a) (hstep : s.step a = some t) : t.stream.length < t.encodings.length := by
  obtain ⟨hhandoff, hcalls⟩ := hok
  cases hcall : a.call? with
  | none =>
    obtain ⟨hstream, hreqs, -⟩ := stream_of_step hhandoff hcall hstep
    rw [hstream, encodings, hreqs]
    exact h
  | some call =>
    obtain ⟨fails, rfl⟩ : ∃ fails, a = .send call fails := by
      cases a <;> cases hcall
      exact ⟨_, rfl⟩
    obtain ⟨req, hreq, rfl⟩ := sendRequest_of_step (hcalls call rfl).2.2 hstep
    have hsync : (if (s.conn.numberRequest req).2 ≠ 0 then syncReq else []).length ≤
        (List.replicate (s.conn.numberRequest req).2 syncReq).flatten.length := by
      cases (s.conn.numberRequest req).2 with
      | zero => exact Nat.le_refl 0
      | succ count => simp [List.replicate_succ]
    rw [stream_sendRequest, encodings_sendRequest]
    simp only [List.length_append] at hsync ⊢
    omega

/-- A second `GetInputFocus` is missing. -/
theorem stream_sendRequest_of_doubleSync {call : SendCall} {req : PreparedRequest}
    (h : s.stream.length ≤ s.encodings.length) (hdouble : s.conn.DoubleSync req.isvoid)
    (fails : ℕ → Bool) : (s.sendRequest call req fails).stream.length <
      (s.sendRequest call req fails).encodings.length := by
  rw [stream_sendRequest, encodings_sendRequest, numberRequest_snd_of_doubleSync hdouble]
  have hone : (if 2 ≠ 0 then syncReq else []).length = 4 := rfl
  have htwo : (List.replicate 2 syncReq).flatten.length = 8 := rfl
  simp only [List.length_append, hone, htwo]
  omega

/-- Either no call has inserted two, or something is missing. -/
theorem trace_singly_or_missing {size : ℕ} {maximum : BitVec 16}
    (h : Transition.Trace Session.step Sends (Session.init size maximum) actions s) :
    Transition.Trace Session.step SendsSingly (Session.init size maximum) actions s ∨
      s.stream.length < s.encodings.length := by
  induction h with
  | nil => exact .inl .nil
  | @snoc actions s t a htrace hok hstep ih =>
    rcases ih with hsingly | hmissing
    · by_cases hsingle : ∀ call ∈ a.call?, ¬ s.conn.DoubleSync call.isvoid
      · exact .inl (.snoc hsingly ⟨hok, hsingle⟩ hstep)
      · simp only [not_forall, not_not] at hsingle
        obtain ⟨call, hcall, hdouble⟩ := hsingle
        obtain ⟨fails, rfl⟩ : ∃ fails, a = .send call fails := by
          cases a <;> cases hcall
          exact ⟨_, rfl⟩
        obtain ⟨req, hreq, rfl⟩ := sendRequest_of_step (hok.2 call rfl).2.2 hstep
        rw [← isvoid_of_prepare hreq] at hdouble
        exact .inr
          (stream_sendRequest_of_doubleSync (by rw [stream_of_trace hsingly]) hdouble fails)
    · exact .inr (stream_step_of_missing hmissing hok hstep)

theorem encodings_of_split (h : Frames.split frameSize s.stream.length s.stream =
    some (s.requests.map Request.encoding)) : s.stream = s.encodings := by
  rw [← Frames.flatten_of_split h, encodings, List.flatMap_def]

theorem Recorded.roundTrips (h : Recorded setupMaximum actions s)
    (hstream : s.stream = s.encodings) :
    RoundTrips setupMaximum actions s := by
  refine ⟨?_, h.calls, h.number, h.framed⟩
  have hdelimits : ∀ frame ∈ s.requests.map Request.encoding, Frames.Delimits frameSize frame := by
    intro frame hframe
    obtain ⟨r, hr, rfl⟩ := List.mem_map.mp hframe
    exact (h.framed r hr).delimits
  rw [hstream, encodings, List.flatMap_def]
  exact Frames.split_flatten hdelimits (Frames.length_le_of_delimits hdelimits)

/-! ### Two at once -/

theorem sends_wordCall (s : Session) (isvoid : Bool) (fails : ℕ → Bool) :
    Sends s (.send (wordCall isvoid) fails) := by
  refine ⟨rfl, ?_⟩
  rintro call ⟨rfl⟩
  have hraw : hasFlag (wordCall isvoid).flags requestRaw = false := by cases isvoid <;> rfl
  have hlonglen : (wordCall isvoid).longlen = 1 := by cases isvoid <;> rfl
  have hopcodes : (wordCall isvoid).opcodes = some (if isvoid then 127 else 43, none) := rfl
  have hmaximum : ¬ 1 > (wordCall isvoid).maximumRequestLength.toNat := by
    cases isvoid <;> decide
  refine ⟨hraw, by rw [hlonglen]; norm_num, ?_⟩
  obtain ⟨⟨shortlen, bigLength⟩, hlengths⟩ : ∃ lengths,
      (wordCall isvoid).lengths s.conn.setupMaximumRequestLength = some lengths := by
    simp only [SendCall.lengths, hlonglen, if_neg hmaximum]
    split <;> exact ⟨_, rfl⟩
  simp only [SendCall.prepare, hraw, dite_true, hopcodes, hlengths]
  rfl

theorem allowsWords_sends : AllowsWords Sends := by
  refine ⟨fun s isvoid own => sends_wordCall s isvoid _, ?_, ?_, ?_, ?_⟩
  all_goals
    intros
    exact ⟨rfl, by rintro call ⟨⟩⟩

/-- 65535 requests at a time, the numbers come to `2 ^ 64 - 2` just before a `GetInputFocus` is
due. -/
theorem exists_doubleSync {ok : Session → Action → Prop} (hok : AllowsWords ok) (size : ℕ) :
    ∃ s, Transition.Reach Session.step ok (Session.init size 65535) s ∧
      s.Flushed (2 ^ 64 - 2) (BitVec.ofNat 64 (2 ^ 64 - 65536)) := by
  have hfirst : (Session.init size 65535).Flushed 0 (BitVec.ofNat 64 0) := flushed_init size
  obtain ⟨s, hreach, hs⟩ := hfirst.reach_void hok (show 0 ≤ 65534 by norm_num) (by norm_num)
    (by norm_num)
  have hnext : ∀ j < 281479271743488, ∀ s : Session,
      s.Flushed (65535 * j + 65534) (BitVec.ofNat 64 (65535 * j)) →
      ∃ t, Transition.Reach Session.step ok s t ∧
        t.Flushed (65535 * (j + 1) + 65534) (BitVec.ofNat 64 (65535 * (j + 1))) := by
    intro j hj s hs
    have hone := hs.numberRequest_of_due (by omega)
    have hsync : (s.sendWord true false).Flushed _ _ := hs.sendWord (by omega)
    rw [hone, if_neg (by decide), if_neg (by decide)] at hsync
    rw [show 65535 * j + 65534 + 1 = 65535 * (j + 1) by ring] at hsync
    obtain ⟨t, hst, ht⟩ := hsync.reach_void hok
      (show 65535 * (j + 1) + 1 ≤ 65535 * (j + 1) + 65534 by omega) (by omega) (by omega)
    exact ⟨t, (reach_sendWord hok hs _ _).trans hst, ht⟩
  obtain ⟨t, hst, ht⟩ := Transition.Reach.iterate hnext hs
  norm_num at ht
  exact ⟨t, hreach.trans hst, ht⟩

/-- **Framing.** A server finds exactly the requests that were sent, as long as no call inserts two
`GetInputFocus`. -/
theorem roundTrips_iff {size : ℕ} {maximum : BitVec 16}
    (h : Transition.Trace Session.step Sends (Session.init size maximum) actions s) :
    RoundTrips maximum actions s ↔
      Transition.Trace Session.step SendsSingly (Session.init size maximum) actions s := by
  constructor
  · intro hround
    refine (trace_singly_or_missing h).resolve_right fun hmissing => ?_
    rw [encodings_of_split hround.split] at hmissing
    exact absurd hmissing (Nat.lt_irrefl _)
  · intro hsingly
    exact (recorded_of_trace h).roundTrips (stream_of_trace hsingly)

/-- A request that is answered, one that is too long for the setup, and one without an answer. -/
def shortLongShort : List Action :=
  [.send (wordCall false) fun _ => false,
    .send ((zeroCall 5 (Nat.succ_pos 4)).withMaximum 100) fun _ => false, .flush,
    .send (wordCall true) fun _ => false]

/-- The second of three requests has a length of 32 bits. -/
theorem roundTrips_shortLongShort :
    ∃ s, Transition.Trace Session.step Sends (Session.init 16384 4) shortLongShort s ∧
      s.stream = [43, 0, 1, 0, 127, 0, 0, 0, 6, 0, 0, 0] ++ List.replicate 16 0 ++ [127, 0, 1, 0] ∧
        RoundTrips 4 shortLongShort s := by
  have hrun : (shortLongShort.foldlM (Transition.checked Session.step SendsSingly)
      (Session.init 16384 4)).map (·.stream) =
        some ([43, 0, 1, 0, 127, 0, 0, 0, 6, 0, 0, 0] ++ List.replicate 16 0 ++
          [127, 0, 1, 0]) := by
    decide +kernel
  obtain ⟨s, hs, hstream⟩ := Option.map_eq_some_iff.mp hrun
  have hsingly := Transition.Trace.of_checked hs
  have hsends : Transition.Trace Session.step Sends (Session.init 16384 4) shortLongShort s :=
    hsingly.mono fun _ _ hok => hok.1
  exact ⟨s, hsends, hstream, (roundTrips_iff hsends).mpr hsingly⟩

/-- In a run of fewer than `2 ^ 64` calls two `GetInputFocus` fall due at once. -/
theorem not_roundTrips_words :
    ∃ actions s, Transition.Trace Session.step Sends (Session.init 16384 65535) actions s ∧
      (actions.filterMap Action.call?).length < 2 ^ 64 ∧ ¬ RoundTrips 65535 actions s := by
  obtain ⟨s, hreach, hs⟩ := exists_doubleSync allowsWords_sends 16384
  obtain ⟨actions, htrace⟩ := hreach.trace
  have hdouble : s.conn.DoubleSync true := by
    refine ⟨rfl, ?_, ?_⟩
    · rw [hs.request]
      rfl
    · rw [hs.requestExpected]
      rfl
  have hlen : s.stream.length ≤ s.encodings.length := by
    rw [encodings, hs.encodings, Session.stream, hs.queueLen, List.take_zero, List.append_nil,
      hs.socket]
  have hfull : Transition.Trace Session.step Sends (Session.init 16384 65535) _ _ :=
    .snoc htrace (sends_wordCall s true fun _ => false)
      (step_send hs.hasError hs.returnSocket (by rw [hs.maximum, prepare_wordCall]) fun _ => false)
  refine ⟨_, _, hfull, ?_, fun hround => ?_⟩
  · rw [← (recorded_of_trace hfull).calls, requests_sendRequest, List.filterMap_append,
      call?_of_newRequests, List.length_append]
    have hle := List.length_filterMap_le Request.call? s.requests
    rw [hs.length] at hle
    simp only [List.length_singleton]
    omega
  · have hmissing : (s.sendRequest (wordCall true) (wordRequest true)
        fun _ => false).stream.length < _ :=
      stream_sendRequest_of_doubleSync hlen hdouble fun _ => false
    rw [encodings_of_split hround.split] at hmissing
    exact absurd hmissing (Nat.lt_irrefl _)

end Session

end Xcb
