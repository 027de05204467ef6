import Xcb.History

/-!
# Runs of one-word requests

The shortest requests there are: `NoOperation`, and `GetInputFocus` where an answer is wanted. Each
is sent and flushed at once, so that between two calls nothing waits in the queue and a state is
described by a few numbers. Long runs of them show what the counters do at their ends.

## Main definitions

* `Session.sendWord` — send one of them, and flush
* `Session.Flushed`, `Session.Words` — the writing side between two calls, and both sides

## Main results

* `flushed_sendWord`, `Words.send` — one more request
* `Words.skip`, `Words.serve` — the server takes a request that wants no answer, or one that gets
  an error
-/

namespace Xcb

/-- A request of one word. -/
def wordCall (isvoid : Bool) : SendCall where
  flags := 0
  vector := [.bytes [0, 0, 0, 0]]
  ext := none
  opcode := if isvoid then 127 else 43
  isvoid := isvoid
  maximumRequestLength := 65535
  count_pos := SendCall.count_pos_word
  header_le := SendCall.header_le_word 0
  pad_le := SendCall.pad_le_word 0
  aligned := SendCall.aligned_word 0

/-- What becomes of it. -/
def wordRequest (isvoid : Bool) : PreparedRequest where
  isvoid := isvoid
  flags := 0
  workaround := .none
  bigLength := 0
  parts := [[if isvoid then 127 else 43, 0, 1, 0]]
  header_le := by simp

theorem prepare_wordCall (isvoid : Bool) :
    (wordCall isvoid).prepare 65535#16 = some (wordRequest isvoid) := by
  cases isvoid <;> rfl

theorem length_encoding_wordRequest (isvoid : Bool) :
    (wordRequest isvoid).encoding.length = 4 := by
  cases isvoid <;> rfl

theorem pending_wordRequest (isvoid : Bool) (number : BitVec 64) :
    (wordRequest isvoid).pending number = [] := rfl

/-- The call, when `xcb_get_maximum_request_length` returns `maximum` to it. -/
def SendCall.withMaximum (call : SendCall) (maximum : BitVec 32) : SendCall :=
  { call with maximumRequestLength := maximum }

theorem header_le_zeroCall (words : ℕ) (hpos : 0 < words) :
    hasFlag 0 requestRaw = false →
      ∀ part ∈ [Part.bytes (List.replicate (4 * words) 0)].head?, 4 ≤ part.len := by
  rintro - part ⟨⟩
  rw [Part.len, Part.memory, List.length_replicate]
  omega

/-- A core request of `words` zero words. -/
def zeroCall (words : ℕ) (hpos : 0 < words) : SendCall where
  flags := 0
  vector := [.bytes (List.replicate (4 * words) 0)]
  ext := none
  opcode := 127
  isvoid := true
  maximumRequestLength := 0
  count_pos := List.cons_ne_nil _ _
  header_le := header_le_zeroCall words hpos
  pad_le := by
    intro _ len hmem
    simp at hmem
  aligned := by simp [Part.len, Part.memory]

theorem longlen_zeroCall (words : ℕ) (hpos : 0 < words) :
    (zeroCall words hpos).longlen = words := by
  simp [SendCall.longlen, zeroCall, Part.len, Part.memory]

theorem not_raw_zeroCall (words : ℕ) (hpos : 0 < words) :
    hasFlag (zeroCall words hpos).flags requestRaw = false := by
  show hasFlag 0 requestRaw = false
  decide

theorem exists_prepare_zeroCall {words : ℕ} (hpos : 0 < words) {setupMaximum : BitVec 16}
    {maximum : BitVec 32} (hle : words ≤ maximum.toNat) :
    ∃ req, ((zeroCall words hpos).withMaximum maximum).prepare setupMaximum = some req := by
  have hlengths : ∃ lengths,
      ((zeroCall words hpos).withMaximum maximum).lengths setupMaximum = some lengths := by
    have hlonglen : ((zeroCall words hpos).withMaximum maximum).longlen = words :=
      longlen_zeroCall words hpos
    rw [SendCall.lengths, hlonglen]
    split
    · exact ⟨_, rfl⟩
    · exact ⟨_, if_neg (Nat.not_lt.mpr hle)⟩
  obtain ⟨⟨shortlen, bigLength⟩, hlengths⟩ := hlengths
  have hopcodes : ((zeroCall words hpos).withMaximum maximum).opcodes = some (127, none) := rfl
  have hraw : hasFlag ((zeroCall words hpos).withMaximum maximum).flags requestRaw = false :=
    not_raw_zeroCall words hpos
  simp only [SendCall.prepare, hraw, dite_true, hopcodes, hlengths]
  exact ⟨_, rfl⟩

namespace Session

variable {s t : Session}

/-- The call's own request may fail, those inserted before it do not. -/
def onlyOwn (fails : Bool) : ℕ → Bool
  | 0 => fails
  | _ + 1 => false

/-- `xcb_send_request` and `xcb_flush`. -/
def sendWord (s : Session) (isvoid fails : Bool) : Session :=
  (s.sendRequest (wordCall isvoid) (wordRequest isvoid) (onlyOwn fails)).flushTo
    (s.sendRequest (wordCall isvoid) (wordRequest isvoid) (onlyOwn fails)).conn.out.request

/-- A restriction on runs that allows the steps made here. -/
structure AllowsWords (ok : Session → Action → Prop) : Prop where
  send : ∀ s isvoid fails, ok s (.send (wordCall isvoid) (onlyOwn fails))
  flush : ∀ s, ok s .flush
  handle : ∀ s, ok s .handle
  emit : ∀ s sequence, ok s (.emit xcbError sequence [])
  read : ∀ s, ok s .read

/-- A session with `sent` requests, each of one word, and all of them written. -/
structure Flushed (s : Session) (sent : ℕ) (expected : BitVec 64) : Prop where
  hasError : s.conn.hasError = false
  maximum : s.conn.setupMaximumRequestLength = 65535#16
  returnSocket : s.conn.out.returnSocket = none
  queueLen : s.conn.out.queueLen = 0
  request : s.conn.out.request = BitVec.ofNat 64 sent
  requestWritten : s.conn.out.requestWritten = BitVec.ofNat 64 sent
  requestExpected : s.conn.inp.requestExpected = expected
  length : s.requests.length = sent
  encodings : (s.requests.flatMap Request.encoding).length = 4 * sent
  socket : s.socket.length = 4 * sent

theorem flushed_init (size : ℕ) : (Session.init size 65535).Flushed 0 0 :=
  ⟨rfl, rfl, rfl, rfl, rfl, rfl, rfl, rfl, rfl, rfl⟩

theorem Flushed.flushTo_eq_self {sent : ℕ} {expected : BitVec 64} (h : s.Flushed sent expected) :
    s.flushTo s.conn.out.request = s :=
  if_pos (by simp [h.requestWritten, h.request, sequenceCompare])

theorem length_flatMap_encoding_syncRequests (number : BitVec 64) (fails : ℕ → Bool) (count : ℕ) :
    ((syncRequests number fails count).flatMap Request.encoding).length = 4 * count := by
  induction count generalizing number with
  | zero => rfl
  | succ count ih =>
    rw [syncRequests, List.flatMap_cons, List.length_append, ih]
    change 4 + 4 * count = _
    omega

/-! ### Sending -/

/-- The number of the `GetInputFocus`, as the loop computes it. -/
theorem ofNat_add_window (e : ℕ) :
    BitVec.ofNat 64 e + 65536#64 - 1#64 = BitVec.ofNat 64 (e + 65535) := by
  rw [BitVec.ofNat_add]
  bv_omega

section send

variable {sent : ℕ} {expected : BitVec 64}

theorem out_sendWord (s : Session) (isvoid fails : Bool) :
    ∃ socket queue queueLen written, s.sendWord isvoid fails =
      (s.number (wordCall isvoid) (wordRequest isvoid)
      (onlyOwn fails)).withOutput socket queue queueLen
        written := by
  obtain ⟨socket, queue, queueLen, written, h⟩ :=
    sendRequest_eq s (wordCall isvoid) (wordRequest isvoid) (onlyOwn fails)
  obtain ⟨socket', queue', queueLen', written', h'⟩ := flushTo_eq
    (s.sendRequest (wordCall isvoid) (wordRequest isvoid) (onlyOwn fails))
    (s.sendRequest (wordCall isvoid) (wordRequest isvoid) (onlyOwn fails)).conn.out.request
  refine ⟨socket', queue', queueLen', written', ?_⟩
  rw [sendWord, h', h]
  rfl

/-- Both calls are possible. -/
theorem reach_sendWord {ok : Session → Action → Prop} (hok : AllowsWords ok)
    (h : s.Flushed sent expected) (isvoid fails : Bool) :
    Transition.Reach Session.step ok s (s.sendWord isvoid fails) := by
  obtain ⟨socket, queue, queueLen, written, hout⟩ :=
    sendRequest_eq s (wordCall isvoid) (wordRequest isvoid) (onlyOwn fails)
  have herr : (s.sendRequest (wordCall isvoid) (wordRequest isvoid) (onlyOwn fails)).conn.hasError =
      false := by
    rw [hout, number_eq, numberRequest_fst]
    exact h.hasError
  have hfirst : s.step (.send (wordCall isvoid) (onlyOwn fails)) =
      some (s.sendRequest (wordCall isvoid) (wordRequest isvoid) (onlyOwn fails)) :=
    step_send h.hasError h.returnSocket (by rw [h.maximum, prepare_wordCall]) _
  exact (Transition.Reach.single (hok.send s _ _) hfirst).tail (hok.flush _) (by
    simp [Session.step, herr, sendWord])

theorem flatten_vector_wordRequest_ne_nil (isvoid sync : Bool) :
    ((wordRequest isvoid).vector sync).flatten ≠ [] := by
  refine List.ne_nil_of_length_pos ?_
  rw [flatten_vector, List.length_append, length_encoding_wordRequest]
  omega

theorem Flushed.request_number (h : s.Flushed sent expected) (isvoid fails : Bool) :
    (s.number (wordCall isvoid) (wordRequest isvoid) (onlyOwn fails)).conn.out.request =
      BitVec.ofNat 64 (sent + (s.conn.numberRequest (wordRequest isvoid)).2 + 1) := by
  rw [number_eq, numberRequest_fst]
  change s.conn.out.request + BitVec.ofNat 64 (_ + 1) = _
  rw [h.request, ← BitVec.ofNat_add, Nat.add_assoc]

/-- Nothing is left to write. -/
theorem Flushed.queueLen_sendWord (h : s.Flushed sent expected) (isvoid fails : Bool) :
    (s.sendWord isvoid fails).conn.out.queueLen = 0 ∧
      (s.sendWord isvoid fails).conn.out.requestWritten =
        BitVec.ofNat 64 (sent + (s.conn.numberRequest (wordRequest isvoid)).2 + 1) := by
  have hle := numberRequest_snd_le s.conn (wordRequest isvoid)
  obtain ⟨socket, queue, queueLen, written, hout⟩ :=
    sendRequest_eq s (wordCall isvoid) (wordRequest isvoid) (onlyOwn fails)
  have hreq : (s.sendRequest (wordCall isvoid) (wordRequest isvoid)
      (onlyOwn fails)).conn.out.request =
      (s.number (wordCall isvoid) (wordRequest isvoid) (onlyOwn fails)).conn.out.request := by
    rw [hout]
    rfl
  rw [Session.sendWord, hreq, sendRequest, ← h.request_number isvoid fails]
  have hwritten :
      (s.number (wordCall isvoid) (wordRequest isvoid) (onlyOwn fails)).conn.out.requestWritten =
        BitVec.ofNat 64 sent := by
    rw [number_eq, numberRequest_fst]
    exact h.requestWritten
  refine flushTo_writeBlock (flatten_vector_wordRequest_ne_nil _ _) ?_
  rw [h.request_number, hwritten, sequenceCompare_ofNat (by omega) (by omega)]
  omega

/-- **One more request**, with at most one `GetInputFocus` before it. -/
theorem Flushed.sendWord (h : s.Flushed sent expected) {isvoid fails : Bool}
    (hone : (s.conn.numberRequest (wordRequest isvoid)).2 ≤ 1) :
    (s.sendWord isvoid fails).Flushed
      (sent + (s.conn.numberRequest (wordRequest isvoid)).2 + 1)
      (if isvoid = false then
          BitVec.ofNat 64 (sent + (s.conn.numberRequest (wordRequest isvoid)).2 + 1)
        else if (s.conn.numberRequest (wordRequest isvoid)).2 = 0 then expected
        else BitVec.ofNat 64 (sent + (s.conn.numberRequest (wordRequest isvoid)).2)) := by
  have hstream : (s.sendWord isvoid fails).stream.length =
      4 * (sent + (s.conn.numberRequest (wordRequest isvoid)).2 + 1) := by
    rw [Session.sendWord, stream_flushTo, stream_sendRequest]
    simp only [Session.stream, List.length_append, h.socket, h.queueLen, List.take_zero,
      List.length_nil, length_encoding_wordRequest]
    split
    · next hne =>
      change _ + 4 + 4 = _
      omega
    · simp only [List.length_nil]
      omega
  obtain ⟨hzero, hwritten⟩ := h.queueLen_sendWord isvoid fails
  have hrequest := h.request_number isvoid fails
  obtain ⟨socket, queue, queueLen, written, hout⟩ := out_sendWord s isvoid fails
  simp only [Session.stream, hzero, List.take_zero, List.append_nil] at hstream
  rw [hout, number_eq] at hzero hwritten hstream ⊢
  rw [number_eq] at hrequest
  refine ⟨?_, ?_, ?_, hzero, hrequest, hwritten, ?_, ?_, ?_, hstream⟩
  · rw [numberRequest_fst]
    exact h.hasError
  · rw [numberRequest_fst]
    exact h.maximum
  · rw [numberRequest_fst]
    exact h.returnSocket
  · rw [numberRequest_fst]
    change (if isvoid = false then s.conn.out.request + BitVec.ofNat 64 (_ + 1)
      else if _ then s.conn.inp.requestExpected else s.conn.out.request + BitVec.ofNat 64 _) = _
    rw [h.request, h.requestExpected, ← BitVec.ofNat_add, ← BitVec.ofNat_add, Nat.add_assoc]
  · change (s.requests ++ newRequests _ _ _ _ _).length = _
    rw [List.length_append, length_newRequests, h.length]
    omega
  · change ((s.requests ++ newRequests _ _ _ _ _).flatMap Request.encoding).length = _
    simp only [newRequests, List.flatMap_append, List.length_append, h.encodings,
      length_flatMap_encoding_syncRequests, List.flatMap_singleton, length_encoding_wordRequest]
    omega

/-- Away from the number it is due at, a void request needs no `GetInputFocus`. -/
theorem Flushed.numberRequest_of_far {e : ℕ} (h : s.Flushed sent (BitVec.ofNat 64 e))
    (hlast : sent + 1 < 2 ^ 64) (hfar : e + 65535 < sent + 1 ∨ e ≤ sent ∧ sent + 1 < e + 65535) :
    (s.conn.numberRequest (wordRequest true)).2 = 0 := by
  have hne : BitVec.ofNat 64 (sent + 1) ≠ BitVec.ofNat 64 0 :=
    fun heq => absurd ((Serial.ofNat_inj (by omega) (by omega)).mp heq) (by omega)
  have hne' : BitVec.ofNat 64 (sent + 1) ≠ BitVec.ofNat 64 (e + 65535) :=
    fun heq => absurd ((Serial.ofNat_inj (by omega) (by omega)).mp heq) (by omega)
  rw [numberRequest_snd_eq_zero_iff]
  change (true && s.conn.out.request + 1#64 == s.conn.inp.requestExpected + 65536#64 - 1#64 ||
    s.conn.out.request + 1#64 == 0#64) = false
  rw [h.request, h.requestExpected, ofNat_add_window, show (1#64) = BitVec.ofNat 64 1 from rfl,
    ← BitVec.ofNat_add, beq_false_of_ne hne', beq_false_of_ne hne]
  rfl

/-- At that number it needs one. -/
theorem Flushed.numberRequest_of_due {e : ℕ} (h : s.Flushed (e + 65534) (BitVec.ofNat 64 e))
    (hlast : e + 65536 < 2 ^ 64) : (s.conn.numberRequest (wordRequest true)).2 = 1 := by
  have hle : (s.conn.numberRequest (wordRequest true)).2 ≤ 1 := by
    refine numberRequest_snd_le_one fun hdouble => ?_
    have heq : BitVec.ofNat 64 (e + 65534) = BitVec.ofNat 64 (2 ^ 64 - 2) := by
      rw [← h.request, hdouble.2.1]
      rfl
    exact absurd ((Serial.ofNat_inj (by omega) (by omega)).mp heq) (by omega)
  have hne : (s.conn.numberRequest (wordRequest true)).2 ≠ 0 := by
    rw [Ne, numberRequest_snd_eq_zero_iff]
    change ¬ (true && s.conn.out.request + 1#64 == s.conn.inp.requestExpected + 65536#64 - 1#64 ||
      s.conn.out.request + 1#64 == 0#64) = false
    rw [h.request, h.requestExpected, ofNat_add_window, show (1#64) = BitVec.ofNat 64 1 from rfl,
      ← BitVec.ofNat_add]
    simp
  omega

/-- Void requests up to the number it is due at. -/
theorem Flushed.reach_void {ok : Session → Action → Prop} (hok : AllowsWords ok) {e : ℕ}
    (h : s.Flushed sent (BitVec.ofNat 64 e)) {last : ℕ} (hle : sent ≤ last) (hlast : last < 2 ^ 64)
    (hfar : e ≤ sent ∧ last < e + 65535) :
    ∃ t, Transition.Reach Session.step ok s t ∧ t.Flushed last (BitVec.ofNat 64 e) := by
  have hnext : ∀ i < last - sent, ∀ s : Session, s.Flushed (sent + i) (BitVec.ofNat 64 e) →
      ∃ t, Transition.Reach Session.step ok s t ∧
        t.Flushed (sent + (i + 1)) (BitVec.ofNat 64 e) := by
    intro i hi s hs
    have hzero := hs.numberRequest_of_far (by omega) (.inr (by omega))
    have hsent : (s.sendWord true false).Flushed _ _ := hs.sendWord (by omega)
    rw [hzero, if_neg (by decide), if_pos rfl] at hsent
    exact ⟨_, reach_sendWord hok hs _ _, hsent⟩
  obtain ⟨t, hst, ht⟩ := Transition.Reach.iterate hnext h
  rw [Nat.add_sub_cancel' hle] at ht
  exact ⟨t, hst, ht⟩

end send

/-! ### Both sides -/

/-- A flushed session whose server has taken `handled` requests. The requests for which `void`
holds want no answer; the others fail. `read` is the number `request_read` stands for. -/
structure Words (s : Session) (void : ℕ → Bool) (sent handled read : ℕ)
    (expected : BitVec 64) : Prop extends Flushed s sent expected where
  requestRead : s.conn.inp.requestRead = BitVec.ofNat 64 read
  wire : s.wire = []
  handled_eq : s.server.handled = handled
  handled_le : handled ≤ sent
  answered : s.answered = true
  kind : ∀ n, 0 < n → n ≤ sent →
    ∃ r, s.request? n = some r ∧ r.isvoid = void n ∧ r.fails = !void n

section words

variable {void : ℕ → Bool} {sent handled read : ℕ} {expected : BitVec 64}
  {ok : Session → Action → Prop}

theorem words_init (void : ℕ → Bool) (size : ℕ) : (Session.init size 65535).Words void 0 0 0 0 :=
  ⟨flushed_init size, rfl, rfl, rfl, Nat.le_refl 0, rfl, fun n hpos hle => absurd hpos (by omega)⟩

/-- One more request, when no `GetInputFocus` is due. -/
theorem Words.send (h : s.Words void sent handled read expected)
    (hzero : (s.conn.numberRequest (wordRequest (void (sent + 1)))).2 = 0) :
    (s.sendWord (void (sent + 1)) (!void (sent + 1))).Words void (sent + 1) handled read
      (if void (sent + 1) = false then BitVec.ofNat 64 (sent + 1) else expected) := by
  have hone : (s.conn.numberRequest (wordRequest (void (sent + 1)))).2 ≤ 1 := by omega
  have hflushed : (s.sendWord (void (sent + 1)) (!void (sent + 1))).Flushed _ _ :=
    h.toFlushed.sendWord hone
  simp only [hzero, if_true, Nat.add_zero] at hflushed
  obtain ⟨socket, queue, queueLen, written, hout⟩ :=
    out_sendWord s (void (sent + 1)) (!void (sent + 1))
  have hnew : (s.sendWord (void (sent + 1)) (!void (sent + 1))).requests = s.requests ++
      newRequests s.conn.out.request 0 (wordCall (void (sent + 1)))
        (wordRequest (void (sent + 1))) (fun _ => !void (sent + 1)) := by
    rw [hout, number_eq, hzero]
    rfl
  refine ⟨hflushed, ?_, ?_, ?_, Nat.le_succ_of_le h.handled_le, ?_, ?_⟩
  · rw [hout, number_eq, numberRequest_fst]
    exact h.requestRead
  · rw [hout, number_eq]
    exact h.wire
  · rw [hout, number_eq]
    exact h.handled_eq
  · have hserver : (s.sendWord (void (sent + 1)) (!void (sent + 1))).server = s.server := by
      rw [hout, number_eq]
      rfl
    have hans := h.answered
    rw [Session.answered, hserver, request?_append_left hnew (by
      rw [h.handled_eq, h.length]
      exact h.handled_le)]
    exact hans
  · intro n hpos hle
    rcases Nat.lt_or_ge sent n with hlt | hle'
    · have hn : n = s.requests.length + 0 + 1 := by
        rw [h.length]
        omega
      rw [hn]
      refine ⟨_, request?_append_right hnew 0, ?_, by rw [h.length]⟩
      rw [h.length]
      rfl
    · rw [request?_append_left hnew (by rw [h.length]; exact hle')]
      exact h.kind n hpos hle'

/-- The bytes of a request that was sent are at the server. -/
theorem Words.handed (h : s.Words void sent handled read expected) {n : ℕ} (hn : n ≤ sent) :
    s.handed n = true := by
  have hlen : ((s.requests.take n).flatMap Request.encoding).length ≤
      (s.requests.flatMap Request.encoding).length :=
    ((List.take_sublist n s.requests).flatMap Request.encoding).length_le
  simp only [Session.handed, Bool.and_eq_true, decide_eq_true_eq]
  rw [h.encodings] at hlen
  rw [h.length, h.socket]
  exact ⟨hn, hlen⟩

/-- The server takes the next request. -/
theorem Words.step_handle (h : s.Words void sent handled read expected) (hlt : handled < sent) :
    s.step .handle = some s.handle := by
  have hhanded : s.handed (s.server.handled + 1) = true :=
    h.handed (by rw [h.handled_eq]; exact hlt)
  simp [Session.step, hhanded, h.answered]

/-- A request that wants no answer. -/
theorem Words.skip (h : s.Words void sent handled read expected) (hlt : handled < sent)
    (hvoid : void (handled + 1) = true) : s.handle.Words void sent (handled + 1) read expected := by
  obtain ⟨r, hr, hisvoid, hfails⟩ := h.kind (handled + 1) (Nat.succ_pos _) hlt
  refine ⟨⟨h.hasError, h.maximum, h.returnSocket, h.queueLen, h.request, h.requestWritten,
    h.requestExpected, h.length, h.encodings, h.socket⟩, h.requestRead, h.wire,
    congrArg (· + 1) h.handled_eq, hlt, ?_, h.kind⟩
  have hr' : s.handle.request? s.handle.server.handled = some r := by
    change s.request? (s.server.handled + 1) = _
    rw [h.handled_eq, hr]
  simp [Session.answered, hr', hisvoid, hfails, hvoid]

/-- The error that answers the request the server has taken last. -/
def wordError (s : Session) : Packet Stamp :=
  s.packet xcbError (BitVec.ofNat 16 s.server.handled) []

/-- Take a request, answer it with an error, and read that. -/
def serveWord (s : Session) : Session :=
  (s.handle.emit s.handle.wordError).read s.handle.wordError []

theorem isKeymapNotify_wordError : s.wordError.isKeymapNotify = false := by
  simp only [Packet.isKeymapNotify, wordError, Session.packet]
  decide

theorem canEmit_wordError {r : Request} (hr : s.request? s.server.handled = some r)
    (hfails : r.fails = true)
    (hopen : s.server.errored = false) : s.canEmit s.wordError = true := by
  simp [Session.canEmit, wordError, Session.packet, Packet.isReply, Packet.isError, xcbReply,
    xcbError, hr, hfails, hopen]

theorem Words.request_handle (h : s.Words void sent handled read expected) (hlt : handled < sent)
    (hvoid : void (handled + 1) = false) :
    ∃ r, s.handle.request? s.handle.server.handled = some r ∧ r.fails = true := by
  obtain ⟨r, hr, -, hfails⟩ := h.kind (handled + 1) (Nat.succ_pos _) hlt
  refine ⟨r, ?_, by rw [hfails, hvoid]; rfl⟩
  change s.request? (s.server.handled + 1) = _
  rw [h.handled_eq, hr]

/-- The three steps. -/
theorem Words.step_serveWord (h : s.Words void sent handled read expected) (hlt : handled < sent)
    (hvoid : void (handled + 1) = false) :
    s.step .handle = some s.handle ∧
      s.handle.step (.emit xcbError (BitVec.ofNat 16 s.handle.server.handled) []) =
        some (s.handle.emit s.handle.wordError) ∧
      (s.handle.emit s.handle.wordError).step .read = some s.serveWord := by
  obtain ⟨r, hr, hfails⟩ := h.request_handle hlt hvoid
  have hcan : s.handle.canEmit (s.handle.packet xcbError
      (BitVec.ofNat 16 s.handle.server.handled) []) = true := canEmit_wordError hr hfails rfl
  have hemitted : s.handle.step (.emit xcbError (BitVec.ofNat 16 s.handle.server.handled) []) =
      some (s.handle.emit s.handle.wordError) := by
    simp only [Session.step, hcan, beq_self_eq_true, Bool.or_true, Bool.and_self, if_true]
    rfl
  have hwire : (s.handle.emit s.handle.wordError).wire = [s.handle.wordError] := by
    change s.wire ++ _ = _
    rw [h.wire, List.nil_append]
  exact ⟨h.step_handle hlt, hemitted, by simp [Session.step, hwire, serveWord]⟩

theorem Words.reach_serveWord (hok : AllowsWords ok) (h : s.Words void sent handled read expected)
    (hlt : handled < sent) (hvoid : void (handled + 1) = false) :
    Transition.Reach Session.step ok s s.serveWord := by
  obtain ⟨hhandle, hemitted, hlast⟩ := h.step_serveWord hlt hvoid
  exact ((Transition.Reach.single (hok.handle s) hhandle).tail (hok.emit _ _) hemitted).tail
    (hok.read _) hlast

/-- **A request that fails**: its error is given the number that `widenSequence` finds. -/
theorem Words.serve (h : s.Words void sent handled read expected) (hlt : handled < sent)
    (hvoid : void (handled + 1) = false) {read' : ℕ}
    (hwiden : widenSequence (BitVec.ofNat 64 read) (BitVec.ofNat 16 (handled + 1)) =
      BitVec.ofNat 64 read') :
    s.serveWord.Words void sent (handled + 1) read'
      (if sequenceCompare (BitVec.ofNat 64 read') expected > 0 then BitVec.ofNat 64 read'
        else expected) := by
  obtain ⟨r, hr, hfails⟩ := h.request_handle hlt hvoid
  have hin : s.serveWord.conn.inp = (s.conn.inp.readPacket s.handle.wordError).1 := rfl
  have hnumber : widenSequence s.conn.inp.requestRead s.handle.wordError.sequence =
      BitVec.ofNat 64 read' := by
    rw [h.requestRead, ← hwiden, ← h.handled_eq]
    rfl
  have hadvance := XcbIn.advance_of_not_keymapNotify s.conn.inp s.handle.wordError
    isKeymapNotify_wordError
  rw [hnumber] at hadvance
  refine ⟨⟨h.hasError, h.maximum, h.returnSocket, h.queueLen, h.request, h.requestWritten, ?_,
    h.length, h.encodings, h.socket⟩, ?_, rfl, congrArg (· + 1) h.handled_eq, hlt, ?_, h.kind⟩
  · rw [hin, XcbIn.readPacket_fst, hadvance]
    simp only [XcbIn.advanceRead, h.requestExpected]
  · rw [hin, XcbIn.readPacket_fst, hadvance]
    rfl
  · have hr' : s.serveWord.request? s.serveWord.server.handled = some r := hr
    have herrored : s.serveWord.server.errored = true := rfl
    simp [Session.answered, hr', hfails, herrored]

/-- The error completes the request it is about. -/
theorem requestCompleted_serveWord (s : Session) :
    s.serveWord.conn.inp.requestCompleted = s.serveWord.conn.inp.requestRead := by
  change (s.conn.inp.readPacket s.handle.wordError).1.requestCompleted = _
  have herr : s.handle.wordError.isError = true := rfl
  have hadvance := XcbIn.advance_of_not_keymapNotify s.conn.inp s.handle.wordError
    isKeymapNotify_wordError
  rw [herr, if_pos rfl] at hadvance
  change _ = (s.conn.inp.readPacket s.handle.wordError).1.requestRead
  rw [XcbIn.readPacket_fst, hadvance]
  rfl

/-! ### Many at once -/

/-- Requests that want an answer need no `GetInputFocus`. -/
theorem Words.reach_asking (hok : AllowsWords ok) (h : s.Words void sent handled read expected)
    {last : ℕ} (hle : sent < last) (hlast : last < 2 ^ 64)
    (hvoid : ∀ n, sent < n → n ≤ last → void n = false) :
    ∃ t, Transition.Reach Session.step ok s t ∧
      t.Words void last handled read (BitVec.ofNat 64 last) := by
  have hnext : ∀ i < last - sent, ∀ s : Session,
      s.Words void (sent + i) handled read
        (if i = 0 then expected else BitVec.ofNat 64 (sent + i)) →
      ∃ t, Transition.Reach Session.step ok s t ∧ t.Words void (sent + (i + 1)) handled read
        (if i + 1 = 0 then expected else BitVec.ofNat 64 (sent + (i + 1))) := by
    intro i hi s hs
    have hfalse := hvoid (sent + i + 1) (by omega) (by omega)
    have hzero : (s.conn.numberRequest (wordRequest (void (sent + i + 1)))).2 = 0 := by
      rw [numberRequest_snd_eq_zero_iff, hfalse]
      have hne : BitVec.ofNat 64 (sent + i + 1) ≠ BitVec.ofNat 64 0 :=
        fun heq => absurd ((Serial.ofNat_inj (by omega) (by omega)).mp heq) (by omega)
      simpa [XcbConnection.needsSync, XcbConnection.nextRequest, wordRequest, hs.request,
        BitVec.ofNat_add] using hne
    have hsent := hs.send hzero
    rw [hfalse, if_pos rfl] at hsent
    rw [if_neg (Nat.succ_ne_zero i)]
    exact ⟨_, reach_sendWord hok hs.toFlushed _ _, hsent⟩
  obtain ⟨t, hst, ht⟩ := Transition.Reach.iterate hnext h
  rw [if_neg (by omega), Nat.add_sub_cancel' hle.le] at ht
  exact ⟨t, hst, ht⟩

/-- Void requests need none while they are all to one side of the number it is due at. -/
theorem Words.reach_void (hok : AllowsWords ok) {e : ℕ}
    (h : s.Words void sent handled read (BitVec.ofNat 64 e)) {last : ℕ} (hle : sent ≤ last)
    (hlast : last < 2 ^ 64) (hvoid : ∀ n, sent < n → n ≤ last → void n = true)
    (hfar : e + 65535 ≤ sent) :
    ∃ t, Transition.Reach Session.step ok s t ∧
      t.Words void last handled read (BitVec.ofNat 64 e) := by
  have hnext : ∀ i < last - sent, ∀ s : Session,
      s.Words void (sent + i) handled read (BitVec.ofNat 64 e) →
      ∃ t, Transition.Reach Session.step ok s t ∧
        t.Words void (sent + (i + 1)) handled read (BitVec.ofNat 64 e) := by
    intro i hi s hs
    have htrue := hvoid (sent + i + 1) (by omega) (by omega)
    have hzero := hs.toFlushed.numberRequest_of_far (by omega) (.inl (by omega))
    rw [← htrue] at hzero
    have hsent := hs.send hzero
    rw [htrue, if_neg (by decide)] at hsent
    exact ⟨_, reach_sendWord hok hs.toFlushed _ _, hsent⟩
  obtain ⟨t, hst, ht⟩ := Transition.Reach.iterate hnext h
  rw [Nat.add_sub_cancel' hle] at ht
  exact ⟨t, hst, ht⟩

/-- The server passes over requests that want no answer. -/
theorem Words.reach_skip (hok : AllowsWords ok) (h : s.Words void sent handled read expected)
    {last : ℕ} (hle : handled ≤ last) (hlast : last ≤ sent)
    (hvoid : ∀ n, handled < n → n ≤ last → void n = true) :
    ∃ t, Transition.Reach Session.step ok s t ∧ t.Words void sent last read expected := by
  have hnext : ∀ i < last - handled, ∀ s : Session,
      s.Words void sent (handled + i) read expected →
      ∃ t, Transition.Reach Session.step ok s t ∧
        t.Words void sent (handled + (i + 1)) read expected := by
    intro i hi s hs
    exact ⟨_, .single (hok.handle s) (hs.step_handle (by omega)),
      hs.skip (by omega) (hvoid _ (by omega) (by omega))⟩
  obtain ⟨t, hst, ht⟩ := Transition.Reach.iterate hnext h
  rw [Nat.add_sub_cancel' hle] at ht
  exact ⟨t, hst, ht⟩

/-- One error after the other is read, each with the next number. -/
theorem Words.reach_serve (hok : AllowsWords ok)
    (h : s.Words void sent handled handled (BitVec.ofNat 64 handled)) {last : ℕ}
    (hle : handled ≤ last) (hlast : last ≤ sent)
    (hvoid : ∀ n, handled < n → n ≤ last → void n = false) :
    ∃ t, Transition.Reach Session.step ok s t ∧
      t.Words void sent last last (BitVec.ofNat 64 last) := by
  have hnext : ∀ i < last - handled, ∀ s : Session,
      s.Words void sent (handled + i) (handled + i) (BitVec.ofNat 64 (handled + i)) →
      ∃ t, Transition.Reach Session.step ok s t ∧
        t.Words void sent (handled + (i + 1)) (handled + (i + 1))
          (BitVec.ofNat 64 (handled + (i + 1))) := by
    intro i hi s hs
    have hfalse := hvoid (handled + i + 1) (by omega) (by omega)
    have hserved := hs.serve (by omega) hfalse (widenSequence_ofNat (Nat.le_succ _) (by omega))
    rw [sequenceCompare_ofNat (by omega) (by omega), if_pos (by omega)] at hserved
    exact ⟨_, hs.reach_serveWord hok (by omega) hfalse, hserved⟩
  obtain ⟨t, hst, ht⟩ := Transition.Reach.iterate hnext h
  rw [Nat.add_sub_cancel' hle] at ht
  exact ⟨t, hst, ht⟩

end words

/-! ### One request -/

/-- A new connection on which one request was sent, and its error read. -/
def oneWord : Session := ((Session.init 16384 65535).sendWord false true).serveWord

theorem words_sendWord_init : ((Session.init 16384 65535).sendWord false true).Words
    (fun _ => false) 1 0 0 (BitVec.ofNat 64 1) :=
  (words_init (fun _ => false) 16384).send rfl

theorem words_oneWord : oneWord.Words (fun _ => false) 1 1 1 (BitVec.ofNat 64 1) :=
  words_sendWord_init.serve (by norm_num) rfl (widenSequence_ofNat (Nat.zero_le 1) (by norm_num))

theorem reach_oneWord {ok : Session → Action → Prop} (hok : AllowsWords ok) :
    Transition.Reach Session.step ok (Session.init 16384 65535) oneWord :=
  (reach_sendWord hok (words_init (fun _ => false) 16384).toFlushed _ _).trans
    (words_sendWord_init.reach_serveWord hok (by norm_num) rfl)

end Session

end Xcb
