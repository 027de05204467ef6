import Xcb.Service
import Xcb.Words

/-!
# Sequence numbers stay synchronised

A packet carries 16 bits of a 64-bit number, so reading it right depends on the writing side:
`xcb_send_request` inserts a `GetInputFocus` before too many void requests in a row, which forces
an answer from the server. `Synchronous` says what the two sides know about each other, and the
result is that `request_read` is the number of the request that the packet read last was stamped
with.

## The argument

Let `R` be the number read last and `T` the number of the next packet. Every request strictly
between them is void: it has been handled, and an answer to it would have come first. If there is
one at all, take the last, `T - 1`. It was numbered less than 65535 above `request_expected`, which
was then the number of an earlier answered request or of an earlier packet, hence at most `R`.
So `T` is at most `R + 65535`, and `widenSequence` finds it.

## What the window is for

`request_expected` moves forward only as long as `XCB_SEQUENCE_COMPARE` is right about it, which
takes at most `2 ^ 63` requests in flight. `InFlight` says so.

## Main results

* `synchronous_of_reach` — the invariant, for runs without socket handoff
* `requestRead_eq` — the number read last is the number stamped last
-/

namespace Xcb

namespace Session

variable {s t : Session}

/-! ### The invariant -/

/-- Without socket handoff, and with at most `2 ^ 63` requests in flight at each packet. -/
def InFlight (s : Session) (a : Action) : Prop :=
  a.isHandoff = false ∧ (a = .read → s.requests.length ≤ s.lastRead + 2 ^ 63)

/-- What both sides know about the numbers. `expected` is the number that `request_expected` stands
for. -/
structure Synchronous (s : Session) (expected : ℕ) : Prop extends Stamped s where
  requestExpected : s.conn.inp.requestExpected = BitVec.ofNat 64 expected
  read_le : s.lastRead ≤ expected
  expected_le : expected ≤ s.requests.length
  /-- There is room for one more void request before `GetInputFocus` is due. -/
  room : s.requests.length ≤ expected + 65534
  expected_spec : expected ≤ s.lastRead ∨ s.Nonvoid expected
  /-- No request above `expected` asks for an answer. -/
  nonvoid_le : ∀ n, s.Nonvoid n → n ≤ expected
  /-- A void request was numbered close to a request or packet that `request_expected` was. -/
  close : ∀ n, 0 < n → n ≤ s.requests.length → ¬ s.Nonvoid n →
    ∃ e < n, n ≤ e + 65534 ∧ (e ≤ s.lastRead ∨ s.Nonvoid e)

variable {expected : ℕ}

theorem Nonvoid.le_length {n : ℕ} (h : s.Nonvoid n) : n ≤ s.requests.length := by
  obtain ⟨r, hr, -⟩ := h
  exact (le_length_of_request? hr).2

/-- Steps that concern neither the numbers nor the packets read. -/
theorem Synchronous.of_same (h : s.Synchronous expected) (ht : t.Stamped)
    (hexp : t.conn.inp.requestExpected = s.conn.inp.requestExpected)
    (hrequests : t.requests = s.requests) (hlast : t.lastRead = s.lastRead) :
    t.Synchronous expected := by
  have hnew : t.requests = s.requests ++ [] := by rw [hrequests, List.append_nil]
  have hnonvoid : ∀ n, s.Nonvoid n → t.Nonvoid n := fun n hn => hn.append hnew
  refine ⟨ht, hexp.trans h.requestExpected, ?_, ?_, ?_, ?_, ?_, ?_⟩
  · rw [hlast]
    exact h.read_le
  · rw [hrequests]
    exact h.expected_le
  · rw [hrequests]
    exact h.room
  · rw [hlast]
    exact h.expected_spec.imp_right (hnonvoid expected)
  · intro n hn
    have hle := hn.le_length.trans_eq (congrArg List.length hrequests)
    exact h.nonvoid_le n (hn.of_append hnew hle)
  · intro n hpos hle hvoid
    rw [hrequests] at hle
    obtain ⟨e, helt, hclose, hcases⟩ := h.close n hpos hle fun hn => hvoid (hnonvoid n hn)
    exact ⟨e, helt, hclose, by rw [hlast]; exact hcases.imp_right (hnonvoid e)⟩

/-! ### Numbering a request -/

/-- The number `request_expected` stands for after a request has been numbered. -/
def nextExpected (sent expected count : ℕ) (isvoid : Bool) : ℕ :=
  if isvoid = false then sent + count + 1 else if count = 0 then expected else sent + count

theorem nextExpected_of_nonvoid (sent expected count : ℕ) :
    nextExpected sent expected count false = sent + count + 1 := rfl

theorem nextExpected_of_void (sent expected count : ℕ) :
    nextExpected sent expected count true = if count = 0 then expected else sent + count := rfl

/-- A void request is numbered at most 65534 above `request_expected`, whether or not a
`GetInputFocus` had to be inserted for that. -/
theorem Synchronous.room_next (h : s.Synchronous expected) (req : PreparedRequest) :
    s.requests.length + (s.conn.numberRequest req).2 + 1 ≤
      nextExpected s.requests.length expected (s.conn.numberRequest req).2 req.isvoid + 65534 := by
  have hneeds := (numberRequest_snd_eq_zero_iff s.conn req).mp
  generalize (s.conn.numberRequest req).2 = count at hneeds ⊢
  cases hvoid : req.isvoid with
  | false => simp [nextExpected_of_nonvoid]
  | true =>
    rw [nextExpected_of_void]
    split
    · next hzero =>
      have hne : s.conn.out.request + 1#64 ≠ s.conn.inp.requestExpected + 65536#64 - 1#64 := by
        have := hneeds hzero
        simp only [XcbConnection.needsSync, XcbConnection.nextRequest, hvoid, Bool.true_and,
          Bool.or_eq_false_iff, beq_eq_false_iff_ne] at this
        exact this.1
      have hroom := h.room
      by_contra hlt
      refine hne ?_
      have hsum : s.requests.length + 1 = expected + 65535 := by omega
      rw [h.request, h.requestExpected, show (1#64) = BitVec.ofNat 64 1 from rfl,
        ← BitVec.ofNat_add, hsum, BitVec.ofNat_add]
      bv_omega
    · omega

theorem Synchronous.send (h : s.Synchronous expected) (call : SendCall) (req : PreparedRequest)
    (fails : ℕ → Bool) (ht : t.Stamped) (hconn : t.conn.inp = (s.conn.numberRequest req).1.inp)
    (hnew : t.requests = s.requests ++
      newRequests s.conn.out.request (s.conn.numberRequest req).2 call req fails)
    (hlast : t.lastRead = s.lastRead) :
    t.Synchronous
      (nextExpected s.requests.length expected (s.conn.numberRequest req).2 req.isvoid) := by
  have hroom := h.room_next req
  have hread := h.read_le
  have hexp := h.expected_le
  rw [numberRequest_fst] at hconn
  generalize (s.conn.numberRequest req).2 = count at hroom hconn hnew ⊢
  have hlen : t.requests.length = s.requests.length + count + 1 := by
    rw [hnew, List.length_append, length_newRequests]
    omega
  have hadd : ∀ n : ℕ, s.conn.out.request + BitVec.ofNat 64 n =
      BitVec.ofNat 64 (s.requests.length + n) := by
    intro n
    rw [h.request, ← BitVec.ofNat_add]
  have hmono : expected ≤ nextExpected s.requests.length expected count req.isvoid := by
    cases req.isvoid <;> simp only [nextExpected_of_nonvoid, nextExpected_of_void]
    · omega
    · split <;> omega
  have hsync : ∀ i < count, t.Nonvoid (s.requests.length + i + 1) :=
    fun i hi => nonvoid_sync hnew hi
  have hspec : nextExpected s.requests.length expected count req.isvoid ≤ t.lastRead ∨
      t.Nonvoid (nextExpected s.requests.length expected count req.isvoid) := by
    rw [hlast]
    cases hvoid : req.isvoid with
    | false => exact .inr ((nonvoid_own_iff hnew).mpr hvoid)
    | true =>
      rw [nextExpected_of_void]
      split
      · exact h.expected_spec.imp_right (·.append hnew)
      · next hzero =>
        have := hsync (count - 1) (by omega)
        rw [show s.requests.length + (count - 1) + 1 = s.requests.length + count by omega] at this
        exact .inr this
  refine ⟨ht, ?_, by rw [hlast]; omega, ?_, by omega, hspec, ?_, ?_⟩
  · rw [hconn]
    cases req.isvoid <;>
      simp only [nextExpected_of_nonvoid, nextExpected_of_void, if_true, Bool.true_eq_false,
        if_false]
    · rw [hadd, Nat.add_assoc]
    · split
      · exact h.requestExpected
      · exact hadd count
  · rw [hlen]
    cases req.isvoid <;> simp only [nextExpected_of_nonvoid, nextExpected_of_void]
    · omega
    · split <;> omega
  · intro n hn
    rcases Nat.lt_or_ge s.requests.length n with hlt | hold
    · have hle := hn.le_length
      cases hvoid : req.isvoid with
      | false =>
        rw [nextExpected_of_nonvoid]
        omega
      | true =>
        -- the request itself is void, so it is one of the `GetInputFocus` before it
        have hown : n ≠ s.requests.length + count + 1 := by
          rintro rfl
          rw [nonvoid_own_iff hnew, hvoid] at hn
          cases hn
        rw [nextExpected_of_void]
        split <;> omega
    · exact (h.nonvoid_le n (hn.of_append hnew hold)).trans hmono
  · intro n hpos hle hvoid
    rw [hlast]
    rcases Nat.lt_or_ge s.requests.length n with hlt | hold
    · -- a new number that asks for no answer is the request's own
      have hown : n = s.requests.length + count + 1 := by
        by_contra hne
        refine hvoid ?_
        rw [show n = s.requests.length + (n - s.requests.length - 1) + 1 by omega]
        exact hsync _ (by omega)
      have hisvoid : req.isvoid = true := by
        by_contra hfalse
        rw [Bool.not_eq_true] at hfalse
        rw [hown] at hvoid
        exact hvoid ((nonvoid_own_iff hnew).mpr hfalse)
      rw [hlast] at hspec
      refine ⟨_, ?_, by omega, hspec⟩
      rw [hisvoid, nextExpected_of_void, hown]
      split <;> omega
    · obtain ⟨e, helt, hclose, hcases⟩ :=
        h.close n hpos hold fun hn => hvoid (hn.append hnew)
      exact ⟨e, helt, hclose, hcases.imp_right (·.append hnew)⟩

/-! ### Reading a packet -/

/-- The next packet with a number is at most 65535 above the last one. -/
theorem Synchronous.number_lt (h : s.Synchronous expected) {p : Packet Stamp}
    {wire : List (Packet Stamp)} (hwire : s.wire = p :: wire) :
    p.body.number < s.lastRead + 2 ^ 16 := by
  have hp : p ∈ s.wire := by
    rw [hwire]
    exact List.mem_cons_self
  have hhandled := h.served.le_handled p (List.mem_append_right _ hp)
  have hhandled_le := h.served.handled_le
  by_contra hfar
  -- every request in between is void, for an answer to it would be read before this packet
  have hvoid : ∀ n, s.lastRead < n → n < p.body.number → ¬ s.Nonvoid n := by
    intro n hlt hn hvoid
    obtain ⟨q, hq, hanswer, rfl⟩ := h.served.answered n hvoid (.inl (by omega))
    have hmem := h.served.mem_wire hq (isKeymapNotify_of_isAnswer hanswer) hlt
    have hsorted := (List.pairwise_append.mp h.served.sorted).2.1
    rw [hwire] at hmem hsorted
    rcases List.mem_cons.mp hmem with rfl | hlater
    · omega
    · have := (List.pairwise_cons.mp hsorted).1 q hlater
      omega
  obtain ⟨e, helt, hclose, hcases⟩ := h.close (p.body.number - 1) (by omega) (by omega)
    (hvoid _ (by omega) (by omega))
  have heread : e ≤ s.lastRead := by
    rcases hcases with hcases | hcases
    · exact hcases
    · by_contra hgt
      exact hvoid e (by omega) (by omega) hcases
  omega

theorem Synchronous.read_keymapNotify (h : s.Synchronous expected) {p : Packet Stamp}
    {wire : List (Packet Stamp)} (ht : (s.read p wire).Stamped)
    (hkey : p.isKeymapNotify = true) : (s.read p wire).Synchronous expected := by
  refine h.of_same ht ?_ rfl ?_
  · change (s.conn.inp.readPacket p).1.requestExpected = _
    simp [XcbIn.readPacket_fst, XcbIn.advance_of_keymapNotify _ _ hkey]
  · rw [lastRead_read, nextRead, hkey, if_pos rfl]

/-- Reading a packet with a number: `request_expected` is at least that. -/
theorem Synchronous.read_numbered (h : s.Synchronous expected) {p : Packet Stamp}
    {wire : List (Packet Stamp)} (hwire : s.wire = p :: wire) (ht : (s.read p wire).Stamped)
    (hkey : p.isKeymapNotify = false) (hflight : s.requests.length ≤ s.lastRead + 2 ^ 63) :
    (s.read p wire).Synchronous (max expected p.body.number) := by
  have hp : p ∈ s.wire := by
    rw [hwire]
    exact List.mem_cons_self
  have hle := h.served.lastRead_le hp
  have hlt := h.number_lt hwire
  have hhandled := h.served.le_handled p (List.mem_append_right _ hp)
  have hhandled_le := h.served.handled_le
  have hexp := h.expected_le
  have hroom := h.room
  have hread := h.read_le
  have hlast : (s.read p wire).lastRead = p.body.number := by
    rw [lastRead_read, nextRead, hkey, if_neg Bool.false_ne_true]
  have hmax : max expected p.body.number ≤ s.requests.length := max_le hexp (by omega)
  refine ⟨ht, ?_, by rw [hlast]; exact Nat.le_max_right _ _, hmax, ?_, ?_,
    fun n hn => (h.nonvoid_le n hn).trans (Nat.le_max_left _ _), ?_⟩
  · change (s.conn.inp.readPacket p).1.requestExpected = _
    simp only [XcbIn.readPacket_fst, XcbIn.advance_of_not_keymapNotify _ _ hkey,
      h.widen hp hkey hlt, XcbIn.advanceRead, h.requestExpected]
    rw [sequenceCompare_ofNat (by omega) (by omega)]
    rcases Nat.lt_or_ge expected p.body.number with hgt | hge
    · rw [if_pos (by omega), Nat.max_eq_right (by omega)]
    · rw [if_neg (by omega), Nat.max_eq_left hge]
  · change s.requests.length ≤ _
    omega
  · rw [hlast]
    rcases Nat.le_total expected p.body.number with hcase | hcase
    · exact .inl (by rw [Nat.max_eq_right hcase])
    · rw [Nat.max_eq_left hcase]
      exact h.expected_spec.imp_left fun hspec => hspec.trans hle
  · rw [hlast]
    intro n hpos hn hvoid
    obtain ⟨e, helt, hclose, hcases⟩ := h.close n hpos hn hvoid
    exact ⟨e, helt, hclose, hcases.imp_left fun he => he.trans hle⟩

/-! ### Runs -/

theorem synchronous_init (size : ℕ) (maximum : BitVec 16) :
    (Session.init size maximum).Synchronous 0 := by
  refine ⟨stamped_init size maximum, rfl, Nat.le_refl 0, Nat.le_refl 0, by simp [Session.init],
    .inl (Nat.le_refl 0), fun n hn => hn.le_length, ?_⟩
  intro n hpos hle
  simp only [Session.init, List.length_nil, Nat.le_zero] at hle
  omega

/-- One step, by its action. -/
theorem synchronous_step {a : Action} (h : ∃ expected, s.Synchronous expected) (hok : InFlight s a)
    (hstep : s.step a = some t) : ∃ expected, t.Synchronous expected := by
  obtain ⟨expected, h⟩ := h
  obtain ⟨hhandoff, hflight⟩ := hok
  have hnear : Near s a := by
    rintro rfl p hp -
    obtain ⟨wire, hwire⟩ := List.head?_eq_some_iff.mp hp
    exact h.number_lt hwire
  have ht := stamped_step h.toStamped hnear hstep
  cases step_cases hstep with
  | @send call fails req =>
    refine ⟨_, h.send call req fails ht ?_ ?_ ?_⟩
    · rw [number_eq]
      rfl
    · rw [number_eq]
      rfl
    · rw [number_eq]
      rfl
  | takeSocket => cases hhandoff
  | writev => cases hhandoff
  | getSocketBack => cases hhandoff
  | @poll cookie =>
    obtain ⟨currentReply, replies, heq⟩ := s.conn.inp.pollForReply_snd (BitVec.ofNat 32 cookie)
    refine ⟨_, h.of_same ht ?_ rfl ?_⟩
    · change (s.conn.inp.pollForReply _).2.requestExpected = _
      rw [heq]
    · rw [lastRead, reads_poll]
      rfl
  | getEvent =>
    refine ⟨_, h.of_same ht ?_ rfl ?_⟩
    · change s.conn.inp.getEvent.2.requestExpected = _
      rw [XcbIn.getEvent_snd]
    · rw [lastRead, reads_getEvent]
      rfl
  | @discard request =>
    obtain ⟨currentReply, replies, pending, heq⟩ :=
      s.conn.inp.discardReply_eq s.conn.out.request request
    refine ⟨_, h.of_same ht ?_ rfl rfl⟩
    change (if _ then s.conn.inp else _).requestExpected = _
    rw [heq]
    split <;> rfl
  | @read p wire hwire =>
    cases hkey : p.isKeymapNotify with
    | true => exact ⟨_, h.read_keymapNotify ht hkey⟩
    | false => exact ⟨_, h.read_numbered hwire ht hkey (hflight rfl)⟩
  | _ => exact ⟨_, h.of_same ht rfl rfl rfl⟩

theorem synchronous_of_reach {size : ℕ} {maximum : BitVec 16}
    (h : Transition.Reach Session.step InFlight (Session.init size maximum) s) :
    ∃ expected, s.Synchronous expected :=
  h.invariant (P := fun s => ∃ expected, s.Synchronous expected)
    (fun _ _ _ h hok hstep => synchronous_step h hok hstep) ⟨0, synchronous_init size maximum⟩

/-! ### The window is needed

More than `2 ^ 63` requests in flight make the error of the first one look later than
`request_expected`. That moves back, so that no `GetInputFocus` is inserted before 65535 void
requests in a row, and the number of the next answer is found 65536 too low. -/

/-- The void requests of the run: 65535 of them, after `2 ^ 63 + 2` others. -/
def lateVoid (n : ℕ) : Bool := 2 ^ 63 + 2 < n && n ≤ 2 ^ 63 + 65537

theorem lateVoid_iff {n : ℕ} : lateVoid n = true ↔ 2 ^ 63 + 2 < n ∧ n ≤ 2 ^ 63 + 65537 := by
  simp [lateVoid]

theorem lateVoid_eq_false_iff {n : ℕ} :
    lateVoid n = false ↔ n ≤ 2 ^ 63 + 2 ∨ 2 ^ 63 + 65537 < n := by
  rw [← Bool.not_eq_true, lateVoid_iff]
  omega

/-- All but the last request are answered, and `request_read` is 65536 below that one. -/
theorem exists_late {ok : Session → Action → Prop} (hok : AllowsWords ok) (size : ℕ) :
    ∃ s : Session, Transition.Reach Session.step ok (Session.init size 65535) s ∧
      ∃ expected, s.Words lateVoid (2 ^ 63 + 65538) (2 ^ 63 + 65537) (2 ^ 63 + 2) expected := by
  have hasks : ∀ n, 0 < n → n ≤ 2 ^ 63 + 2 → lateVoid n = false :=
    fun n _ hle => lateVoid_eq_false_iff.mpr (.inl hle)
  have hvoid : ∀ n, 2 ^ 63 + 2 < n → n ≤ 2 ^ 63 + 65537 → lateVoid n = true :=
    fun n hlt hle => lateVoid_iff.mpr ⟨hlt, hle⟩
  have hlast : ∀ n, 2 ^ 63 + 65537 < n → n ≤ 2 ^ 63 + 65538 → lateVoid n = false :=
    fun n hlt _ => lateVoid_eq_false_iff.mpr (.inr hlt)
  obtain ⟨s₁, hr₁, h₁⟩ := (words_init lateVoid size).reach_asking hok
    (show 0 < 2 ^ 63 + 2 by norm_num) (by norm_num) hasks
  -- the first error makes `request_expected` go back to 1
  have hback : sequenceCompare (BitVec.ofNat 64 1) (BitVec.ofNat 64 (2 ^ 63 + 2)) > 0 := by decide
  have h₂ := h₁.serve (by norm_num) (hasks 1 (by norm_num) (by norm_num))
    (widenSequence_ofNat (Nat.zero_le 1) (by norm_num))
  rw [if_pos hback] at h₂
  have hr₂ := h₁.reach_serveWord hok (by norm_num) (hasks 1 (by norm_num) (by norm_num))
  obtain ⟨s₃, hr₃, h₃⟩ := h₂.reach_void hok (by norm_num) (by norm_num) hvoid (by norm_num)
  obtain ⟨s₄, hr₄, h₄⟩ := h₃.reach_serve hok (show 1 ≤ 2 ^ 63 + 2 by norm_num) (by norm_num)
    fun n hlt => hasks n (by omega)
  obtain ⟨s₅, hr₅, h₅⟩ := h₄.reach_skip hok (by norm_num) (Nat.le_refl _) hvoid
  obtain ⟨s₆, hr₆, h₆⟩ := h₅.reach_asking hok (show 2 ^ 63 + 65537 < 2 ^ 63 + 65538 by norm_num)
    (by norm_num) hlast
  exact ⟨s₆, hr₁.trans (hr₂.trans (hr₃.trans (hr₄.trans (hr₅.trans hr₆)))), _, h₆⟩

/-- The error of request `2 ^ 63 + 65538` is read as that of request `2 ^ 63 + 2`. -/
theorem exists_desync {ok : Session → Action → Prop} (hok : AllowsWords ok) (size : ℕ) :
    ∃ s : Session, Transition.Reach Session.step ok (Session.init size 65535) s.serveWord ∧
      s.server.handled = 2 ^ 63 + 65537 ∧ ∃ expected, s.serveWord.Words lateVoid
        (2 ^ 63 + 65538) (2 ^ 63 + 65538) (2 ^ 63 + 2) expected := by
  obtain ⟨s, hreach, expected, hs⟩ := exists_late hok size
  -- 65536 numbers further the 16 bits are the same again
  have hsame : BitVec.ofNat 16 (2 ^ 63 + 65537 + 1) = BitVec.ofNat 16 (2 ^ 63 + 2) := by decide
  have hfails : lateVoid (2 ^ 63 + 65537 + 1) = false :=
    lateVoid_eq_false_iff.mpr (.inr (by norm_num))
  have hserved := hs.serve (by norm_num) hfails
    (by rw [hsame]; exact widenSequence_ofNat (Nat.le_refl _) (by norm_num))
  exact ⟨s, hreach.trans (hs.reach_serveWord hok (by norm_num) hfails), hs.handled_eq, _, hserved⟩

/-! ### The result -/

/-- A run with at most `2 ^ 63` requests in all never has more in flight. -/
theorem inFlight_of_length_le {size : ℕ} {maximum : BitVec 16}
    (h : Transition.Reach Session.step (fun _ a => a.isHandoff = false)
      (Session.init size maximum) s)
    (hle : s.requests.length ≤ 2 ^ 63) :
    Transition.Reach Session.step InFlight (Session.init size maximum) s :=
  reach_of_length_le h fun _ _ hlen hok => ⟨hok, fun _ => by omega⟩

/-- **Sequence numbers never desynchronise.** After each packet, `request_read` is the number of
the request that the last packet with a number was stamped with. -/
theorem requestRead_eq {size : ℕ} {maximum : BitVec 16}
    (h : Transition.Reach Session.step InFlight (Session.init size maximum) s)
    (hlt : s.requests.length < 2 ^ 64) : s.conn.inp.requestRead.toNat = s.lastRead := by
  obtain ⟨expected, hs⟩ := synchronous_of_reach h
  have hle := hs.read_le.trans hs.expected_le
  rw [hs.requestRead, BitVec.toNat_ofNat, Nat.mod_eq_of_lt (by omega)]

/-- The error of a single request. -/
theorem requestRead_eq_word : oneWord.conn.inp.requestRead.toNat = oneWord.lastRead := by
  have hok : AllowsWords fun _ a => a.isHandoff = false :=
    ⟨fun _ _ _ => rfl, fun _ => rfl, fun _ => rfl, fun _ _ => rfl, fun _ => rfl⟩
  have hlength := words_oneWord.length
  exact requestRead_eq (inFlight_of_length_le (reach_oneWord hok) (by omega)) (by omega)

/-- Without the bound on the requests in flight, the two numbers differ. -/
theorem requestRead_ne_desync :
    ∃ s : Session, Transition.Reach Session.step (fun _ a => a.isHandoff = false)
        (Session.init 16384 65535) s ∧
      s.requests.length < 2 ^ 64 ∧ s.conn.inp.requestRead.toNat ≠ s.lastRead := by
  have hok : AllowsWords fun _ a => a.isHandoff = false :=
    ⟨fun _ _ _ => rfl, fun _ => rfl, fun _ => rfl, fun _ _ => rfl, fun _ => rfl⟩
  obtain ⟨s, hreach, hhandled, expected, hs⟩ := exists_desync hok 16384
  refine ⟨s.serveWord, hreach, hs.length.trans_lt (by norm_num), ?_⟩
  have hlast : s.serveWord.lastRead = s.server.handled + 1 := by
    rw [serveWord, lastRead_read, nextRead, isKeymapNotify_wordError]
    rfl
  rw [hs.requestRead, hlast, hhandled]
  decide

end Session

end Xcb
