import Xcb.Network
import Xcb.Stream

/-!
# Threads do whole calls

What several threads do to a connection, a stretch of code at a time, is what whole calls do to it
one after the other. A request is sent when it is numbered, and its bytes count as written from
when a thread has them in the vector that it polls with; the server of the session sees them
earlier than the socket does, and what it could do before it can still do.

## Main definitions

* `Handed` — what a caller is given
* `Mirrors` — a session that has got as far as the threads have
* `Matched` — a session that goes on and gets there

## Main results

* `Mirrors.waitReply`, `Mirrors.outSend`, `Mirrors.sendRequest` — one function after the other
* `Mirrors.run` — one stretch of code is whole calls
-/

namespace Xcb

variable {τ β : Type}

/-! ### What is handed to callers -/

/-- A reply or an error, or that there is none any more; or an event. -/
inductive Handed
  | reply (request : BitVec 32) (reply : Option (Buffer Stamp))
  | event (event : Buffer Stamp)
  deriving DecidableEq, Repr

/-- What a thread's caller is given. -/
def Entry.handed : Entry Stamp → Option Handed
  | .replied request reply => some (.reply request reply)
  | .polled request result => result.map (.reply request)
  | .event result => result.map .event
  | _ => none

/-- The same in a session. -/
def Observation.handed : Observation → Option Handed
  | .read _ => none
  | .poll cookie result => result.map (.reply (BitVec.ofNat 32 cookie))
  | .event result => result.map .event

/-! ### The relation -/

/-- What does not change while a thread runs: the limit in the setup, the arguments of each
thread's `xcb_send_request`, and whether `xcb_discard_reply` is called at all. -/
structure Setting (τ : Type) where
  maximum : BitVec 16
  calls : τ → Option SendCall
  discards : Prop

/-- Where a thread can be as long as the connection has not failed. The request it is about to
number is the one it was called with. -/
def Setting.Allows (c : Setting τ) (t : τ) : Pc → Prop
  | .lock (.send req) | .awaitTurn req => ∃ call ∈ c.calls t, call.prepare c.maximum = some req
  | .lock (.discardReply request) => c.discards ∧ request ≠ 0
  | .pollIn failed _ => failed = false
  | _ => True

/-- `c->out.request_written`, when what a thread polls with counts as written. -/
def WritePhase.written (phase : WritePhase τ) (o : XcbOut) : BitVec 64 :=
  match phase with
  | .quiet => o.requestWritten
  | _ => o.request

/-- The connection of the session. -/
def WritePhase.conn (phase : WritePhase τ) (c : XcbConnection τ β) : XcbConnection Empty β :=
  { c.forget with out := { c.out.forget with requestWritten := phase.written c.out } }

/-- The session has got as far as the threads have. `owed` has been taken out for the thread that
has the lock, which has not returned it yet. -/
structure Mirrors (c : Setting τ) (phase : WritePhase τ) (owed : List Handed)
    (u : System τ Stamp) (s : Session) : Prop where
  conn : s.conn = phase.conn u.conn
  maximum : u.conn.setupMaximumRequestLength = c.maximum
  request : u.conn.out.request = BitVec.ofNat 64 u.requests.length
  requests : s.requests.map Request.encoding = u.requests
  socket : s.socket = u.socket ++ gather u.conn.out.queue phase.vector
  handed : s.log.filterMap Observation.handed = u.log.filterMap Entry.handed ++ owed
  pcs : ∀ t, c.Allows t (u.threads t)

/-- The session does not hand the socket over, discards replies only where the threads do, and
polls with 32 bits. -/
structure WholeCall (discards : Prop) (_ : Session) (a : Action) : Prop where
  handoff : a.isHandoff = false
  discard : a.isDiscard = true → discards
  cookie : ∀ cookie, a = .poll cookie → cookie < 2 ^ 32

/-- A step that neither collects nor discards a reply. -/
theorem WholeCall.of_ne {discards : Prop} (s : Session) {a : Action}
    (hhandoff : a.isHandoff = false) (hdiscard : a.isDiscard = false)
    (hpoll : ∀ cookie, a ≠ .poll cookie) : WholeCall discards s a :=
  ⟨hhandoff, fun h => absurd (hdiscard.symm.trans h) Bool.false_ne_true,
    fun cookie h => absurd h (hpoll cookie)⟩

/-- By whole calls the session gets as far, and to these other ends. -/
def Matched (c : Setting τ) (s : Session) (ends : Outside) (phase : WritePhase τ)
    (owed : List Handed) (u : System τ Stamp) : Prop :=
  ∃ s', Transition.Reach Session.step (WholeCall c.discards) s s' ∧ s'.outside = ends ∧
    Mirrors c phase owed u s'

variable {c : Setting τ} {phase phase' : WritePhase τ} {owed owed' : List Handed}
  {u v : System τ Stamp} {s : Session} {ends ends' : Outside}

theorem Outside.read_nil (o : Outside) : o.read [] = o := by
  rw [Outside.read, List.append_nil]
  rfl

theorem Outside.number_nil (o : Outside) : o.number [] = o := by
  rw [Outside.number, List.append_nil]

theorem Outside.read_append (o : Outside) (ps qs : List (Packet Stamp)) :
    (o.read ps).read qs = o.read (ps ++ qs) := by
  simp [Outside.read, List.drop_drop]

/-- The session gets there, between two stretches of code. -/
def Settles (c : Setting τ) (size : ℕ) (s : Session) (ends : Outside) (u : System τ Stamp) : Prop :=
  ∃ phase, (∀ vector, phase ≠ .held vector) ∧ System.Streaming False size phase u ∧
    Matched c s ends phase [] u

/-- The session need not do anything. -/
theorem Mirrors.matched (h : Mirrors c phase owed u s) : Matched c s s.outside phase owed u :=
  ⟨s, .refl s, rfl, h⟩

/-- One whole call, and nothing else. -/
theorem Mirrors.matched_step {a : Action} {s' : Session} (h : Mirrors c phase owed u s')
    (hwhole : WholeCall c.discards s a) (hstep : s.step a = some s') (hends : s'.outside = ends) :
    Matched c s ends phase owed u :=
  ⟨s', .single hwhole hstep, hends, h⟩

/-- One thing after the other. -/
theorem Matched.bind (h : Matched c s ends phase owed u)
    (h' : ∀ s', s'.outside = ends → Mirrors c phase owed u s' →
      Matched c s' ends' phase' owed' v) : Matched c s ends' phase' owed' v := by
  obtain ⟨s', hreach, hends, hmirrors⟩ := h
  obtain ⟨s'', hreach', hrest⟩ := h' s' hends hmirrors
  exact ⟨s'', hreach.trans hreach', hrest⟩

/-- Where the session ends does not depend on what only the threads see. -/
theorem Matched.map (h : Matched c s ends phase owed u)
    (h' : ∀ s', Mirrors c phase owed u s' → Mirrors c phase' owed' v s') :
    Matched c s ends phase' owed' v := by
  obtain ⟨s', hreach, hends, hmirrors⟩ := h
  exact ⟨s', hreach, hends, h' s' hmirrors⟩

theorem Matched.settles {size : ℕ} (h : Matched c s ends phase owed u)
    (h' : ∀ s', s'.outside = ends → Mirrors c phase owed u s' → Settles c size s' ends' v) :
    Settles c size s ends' v := by
  obtain ⟨s', hreach, hends, hmirrors⟩ := h
  obtain ⟨phase, hheld, hstream, s'', hreach', hrest⟩ := h' s' hends hmirrors
  exact ⟨phase, hheld, hstream, s'', hreach.trans hreach', hrest⟩

namespace Mirrors

theorem hasError (h : Mirrors c phase owed u s) : s.conn.hasError = u.conn.hasError := by
  rw [h.conn]
  rfl

theorem inp (h : Mirrors c phase owed u s) : s.conn.inp = u.conn.inp.forget := by
  rw [h.conn]
  rfl

theorem outRequest (h : Mirrors c phase owed u s) : s.conn.out.request = u.conn.out.request := by
  rw [h.conn]
  rfl

/-- While nobody writes, the two connections differ only in what the threads see. -/
theorem conn_of_quiet (h : Mirrors c .quiet owed u s) : s.conn = u.conn.forget := h.conn

theorem socket_of_quiet (h : Mirrors c .quiet owed u s) : s.socket = u.socket := by
  rw [h.socket]
  exact List.append_nil _

/-- A vector that is being written counts as written, whoever writes it. -/
theorem held {t : τ} {vector : List Iovec} (h : Mirrors c (.poll t vector) owed u s) :
    Mirrors c (.held vector) owed u s :=
  { h with }

theorem poll {t : τ} {vector : List Iovec} (h : Mirrors c (.held vector) owed u s) :
    Mirrors c (.poll t vector) owed u s :=
  { h with }

/-! ### What only the threads see -/

/-- Only what the input half knows about threads has changed. -/
theorem setInp (h : Mirrors c phase owed u s) {inp : XcbIn τ Stamp}
    (hinp : inp.forget = u.conn.inp.forget) : Mirrors c phase owed (u.setInp inp) s :=
  { h with
    conn := by
      rw [h.conn, WritePhase.conn, WritePhase.conn, XcbConnection.forget, ← hinp]
      rfl }

theorem signal (h : Mirrors c phase owed u s) [DecidableEq τ] (order : List τ)
    (condition : Signal τ) : Mirrors c phase owed (u.signal order condition) s := by
  have hreads := System.reads_signal u order condition
  have hconn := System.conn_signal u order condition
  refine ⟨by rw [hconn, h.conn], by rw [hconn, h.maximum], ?_, ?_, ?_, ?_, ?_⟩
  · rw [hconn, hreads.requests, h.request]
  · rw [hreads.requests, h.requests]
  · rw [hconn, hreads.socket, h.socket]
  · rw [hreads.log, h.handed]
  · rw [hreads.threads]
    exact h.pcs

/-- The thread returns what it has. -/
theorem note (entry : Entry Stamp) (h : Mirrors c phase entry.handed.toList u s) :
    Mirrors c phase [] (u.note entry) s :=
  { h with
    handed := by
      rw [h.handed, List.append_nil]
      show _ = (u.log ++ [entry]).filterMap Entry.handed
      rw [List.filterMap_append]
      cases hentry : entry.handed <;> simp [hentry] }

theorem check (h : Mirrors c phase [] u s) (a : QueueAssertion) (p : Prop) [Decidable p] :
    Mirrors c phase [] (u.check a p) s :=
  note (.assertion a (decide p)) h

variable [DecidableEq τ] {e : Env τ Stamp} {t : τ}

theorem setPc (h : Mirrors c phase owed u s) (pc : Pc) (hpc : c.Allows t pc) :
    Mirrors c phase owed (u.setPc t pc) s :=
  { h with pcs := System.forall_setPc (P := c.Allows) u hpc fun v _ => h.pcs v }

theorem leave (entry : Entry Stamp) (h : Mirrors c phase entry.handed.toList u s) :
    Mirrors c phase [] (u.leave t entry) s :=
  note entry (h.setPc .idle trivial)

theorem wakeUpNextReader (h : Mirrors c phase owed u s) :
    Mirrors c phase owed (u.wakeUpNextReader e) s :=
  h.signal e.order _

/-! ### Reading -/

omit [DecidableEq τ] in
/-- The session has changed its input half in the same way. What it has seen is in the thread's
hands. -/
theorem observe (h : Mirrors c phase [] u s) (s' : Session) (inp : XcbIn τ Stamp)
    (observation : Observation) (hconn : s'.conn = { s.conn with inp := inp.forget })
    (hrequests : s'.requests = s.requests) (hsocket : s'.socket = s.socket)
    (hlog : s'.log = s.log ++ [observation]) :
    Mirrors c phase observation.handed.toList (u.setInp inp) s' where
  conn := by
    rw [hconn, h.conn]
    rfl
  maximum := h.maximum
  request := h.request
  requests := by rw [hrequests, h.requests]; rfl
  socket := by rw [hsocket, h.socket]; rfl
  handed := by
    rw [hlog, List.filterMap_append, h.handed, List.append_nil]
    cases hseen : observation.handed <;> simp [hseen, System.setInp]
  pcs := h.pcs

/-- `read_packet` -/
theorem readPacket (h : Mirrors c phase [] u s) {p : Packet Stamp} {wire : List (Packet Stamp)}
    (hwire : s.wire = p :: wire) :
    Matched c s (s.outside.read [p]) phase [] (u.readPacket e p) := by
  have hstep : s.step .read = some (s.read p wire) := by rw [Session.step, hwire]
  have hread : Mirrors c phase [] (u.setInp (u.conn.inp.readPacket p).1) (s.read p wire) :=
    h.observe _ _ (.read p)
      (by rw [XcbIn.forget_readPacket, ← h.inp]; rfl) rfl rfl rfl
  have hends : (s.read p wire).outside = s.outside.read [p] := by
    have hpacket : s.outside.wire = p :: wire := hwire
    rw [Session.outside, Session.reads_read, Outside.read, hpacket]
    rfl
  have hwhole : WholeCall c.discards s .read := .of_ne s rfl rfl fun _ h => by cases h
  refine (hread.matched_step hwhole hstep hends).map fun s' hs' => ?_
  unfold System.readPacket
  dsimp only
  split
  · exact hs'.signal _ _
  · exact hs'

/-- `_xcb_in_read`, when it does not fail. -/
theorem inRead (h : Mirrors c phase [] u s) (halive : (u.inRead e).1.conn.hasError = false)
    (hwire : e.packets <+: s.wire) :
    Matched c s (s.outside.read e.packets) phase [] (u.inRead e).1 := by
  have hpackets : ∀ packets (u : System τ Stamp) (s : Session), Mirrors c phase [] u s →
      packets <+: s.wire → Matched c s (s.outside.read packets) phase []
        (packets.foldl (fun u p => u.readPacket e p) u) := by
    intro packets
    induction packets with
    | nil =>
      intro u s h _
      rw [s.outside.read_nil]
      exact h.matched
    | cons p packets ih =>
      rintro u s h ⟨wire, hwire⟩
      refine (h.readPacket (e := e) hwire.symm).bind fun s' hs' h' => ?_
      have hwire' : s'.wire = packets ++ wire := by
        rw [show s'.wire = s'.outside.wire from rfl, hs', Outside.read,
          show s.outside.wire = p :: packets ++ wire from hwire.symm]
        rfl
      rw [← List.singleton_append, ← s.outside.read_append, ← hs']
      exact ih _ s' h' ⟨wire, hwire'.symm⟩
  have hopen : e.recv.closed = false := by
    by_contra hclosed
    rw [Bool.not_eq_false] at hclosed
    have herror := System.hasError_inRead u (e := e) (by rw [System.inRead_snd, hclosed]; rfl)
    rw [herror] at halive
    cases halive
  have hall : e.recv.aborted = none := by
    cases haborted : e.recv.aborted with
    | none => rfl
    | some p =>
      rw [System.inRead, haborted, hopen] at halive
      cases halive
  rw [Env.packets, hall, Option.toList_none, List.append_nil] at hwire ⊢
  rw [System.inRead, hall, hopen]
  exact hpackets e.recv.packets u s h hwire

/-- What a thread in `poll` reads when it gets the lock again. -/
theorem pollRead (h : Mirrors c phase [] u s)
    (halive : (u.pollRead e false).1.conn.hasError = false)
    (hwire : (if e.pollin then e.packets else []) <+: s.wire) :
    Matched c s (s.outside.read (if e.pollin then e.packets else [])) phase []
      (u.pollRead e false).1 := by
  unfold System.pollRead at halive ⊢
  rw [if_neg Bool.false_ne_true] at halive ⊢
  cases hin : e.pollin with
  | false =>
    rw [if_neg Bool.false_ne_true, s.outside.read_nil]
    exact h.matched
  | true =>
    rw [hin] at hwire halive
    exact h.inRead halive hwire

omit [DecidableEq τ] in
/-- `poll_for_reply` -/
theorem pollForReply (h : Mirrors c phase [] u s) (halive : u.conn.hasError = false)
    (request : BitVec 32) :
    Matched c s s.outside phase
      ((u.conn.inp.pollForReply request).1.map (Handed.reply request)).toList
      (u.setInp (u.conn.inp.pollForReply request).2) := by
  have hcookie : BitVec.ofNat 32 request.toNat = request := BitVec.ofNat_toNat ..
  have hstep : s.step (.poll request.toNat) = some (s.poll request.toNat) := by
    simp [Session.step, h.hasError, halive]
  have hfound : s.conn.inp.pollForReply (BitVec.ofNat 32 request.toNat) =
      ((u.conn.inp.pollForReply request).1, (u.conn.inp.pollForReply request).2.forget) := by
    rw [hcookie, h.inp, XcbIn.forget_pollForReply]
  have hpoll := h.observe (s.poll request.toNat) (u.conn.inp.pollForReply request).2
    (.poll request.toNat (u.conn.inp.pollForReply request).1)
    (by rw [Session.poll, hfound]) rfl rfl (by rw [Session.poll, hfound])
  rw [Observation.handed, hcookie] at hpoll
  have hwhole : WholeCall c.discards s (.poll request.toNat) :=
    ⟨rfl, fun h => absurd h Bool.false_ne_true, fun _ h => by cases h; exact request.isLt⟩
  refine hpoll.matched_step hwhole hstep ?_
  rw [Session.outside, Session.reads_poll]
  rfl

omit [DecidableEq τ] in
/-- `get_event` -/
theorem getEvent (h : Mirrors c phase [] u s) (halive : u.conn.hasError = false) :
    Matched c s s.outside phase (u.conn.inp.getEvent.1.map Handed.event).toList
      (u.setInp u.conn.inp.getEvent.2) := by
  have hstep : s.step .getEvent = some s.getEvent := by
    simp [Session.step, h.hasError, halive]
  have hget := h.observe s.getEvent u.conn.inp.getEvent.2 (.event u.conn.inp.getEvent.1)
   
    (by rw [Session.getEvent, h.inp, XcbIn.forget_getEvent_snd]) rfl rfl
    (by rw [Session.getEvent, h.inp, XcbIn.forget_getEvent_fst])
  refine hget.matched_step (.of_ne s rfl rfl fun _ h => by cases h) hstep ?_
  rw [Session.outside, Session.reads_getEvent]
  rfl

theorem waitRead (h : Mirrors c phase [] u s) (waiter : Waiter) :
    Mirrors c phase [] (u.waitRead t waiter) s := by
  unfold System.waitRead
  split
  · exact { h.setPc (t := t) (.awaitReader waiter) trivial with }
  · have hreading : Mirrors c phase []
        (u.setInp { u.conn.inp with reading := u.conn.inp.reading + 1 }) s := h.setInp rfl
    exact hreading.setPc (.pollIn false waiter) rfl

theorem leaveReply {request : BitVec 32} {reply : Option (Buffer Stamp)}
    (h : Mirrors c phase [.reply request reply] u s) :
    Mirrors c phase [] (u.leaveReply e t request reply) s := by
  have hreaders : Mirrors c phase [.reply request reply] (u.setInp { u.conn.inp with
      readers := removeReader ⟨request, t⟩ u.conn.inp.readers }) s := h.setInp rfl
  exact leave (.replied request reply) hreaders.wakeUpNextReader

/-- The loop of `xcb_wait_for_reply`. -/
theorem waitReply (h : Mirrors c phase [] u s) (halive : u.conn.hasError = false)
    (request : BitVec 32) : Matched c s s.outside phase [] (u.waitReply e t request) := by
  refine (h.pollForReply halive request).map fun s' h' => ?_
  unfold System.waitReply
  dsimp only
  cases hfound : (u.conn.inp.pollForReply request).1 with
  | none =>
    rw [hfound] at h'
    exact h'.waitRead _
  | some reply =>
    rw [hfound] at h'
    exact h'.leaveReply

theorem startReply (h : Mirrors c phase [] u s) (halive : u.conn.hasError = false)
    (request : BitVec 32) : Matched c s s.outside phase [] (u.startReply e t request) := by
  have hreaders : Mirrors c phase [] (u.setInp { u.conn.inp with
      readers := insertReader ⟨request, t⟩ u.conn.inp.readers }) s := h.setInp rfl
  exact hreaders.waitReply halive request

theorem leaveEvent {event : Option (Buffer Stamp)}
    (h : Mirrors c phase (event.map Handed.event).toList u s) :
    Mirrors c phase [] (u.leaveEvent e t event) s :=
  leave (.event event) h.wakeUpNextReader

/-- The loop of `xcb_wait_for_event`. -/
theorem waitEvent (h : Mirrors c phase [] u s) (halive : u.conn.hasError = false) :
    Matched c s s.outside phase [] (u.waitEvent e t) := by
  refine (h.getEvent halive).map fun s' h' => ?_
  unfold System.waitEvent
  dsimp only
  cases hfound : u.conn.inp.getEvent.1 with
  | none =>
    rw [hfound] at h'
    exact h'.waitRead _
  | some event =>
    rw [hfound] at h'
    exact h'.leaveEvent

/-- `xcb_poll_for_event`. It reads only if there is no event yet. -/
theorem pollEvent (h : Mirrors c phase [] u s)
    (halive : (u.pollEvent e t).conn.hasError = false)
    (hwire : (if u.conn.inp.events.isEmpty then e.packets else []) <+: s.wire) :
    Matched c s (s.outside.read (if u.conn.inp.events.isEmpty then e.packets else [])) phase []
      (u.pollEvent e t) := by
  have halive' : u.conn.hasError = false :=
    System.hasError_eq_false (System.serves_pollEvent u e t).hasError halive
  have hget := h.getEvent halive'
  unfold System.pollEvent at halive ⊢
  dsimp only at halive ⊢
  cases hevents : u.conn.inp.events with
  | cons event next =>
    have hfound : u.conn.inp.getEvent.1 = some event := by rw [XcbIn.getEvent, hevents]
    rw [hfound] at hget ⊢
    rw [List.isEmpty_cons, if_neg Bool.false_ne_true, s.outside.read_nil]
    exact hget.map fun s' h' => leave (.event (some event)) h'
  | nil =>
    have hfound : u.conn.inp.getEvent.1 = none := by rw [XcbIn.getEvent, hevents]
    rw [hfound] at hget halive ⊢
    rw [hevents] at hwire
    rw [List.isEmpty_nil, if_pos rfl] at hwire ⊢
    dsimp only at halive ⊢
    refine hget.bind fun s' hs' h' => ?_
    have hwire' : e.packets <+: s'.wire := by
      rw [show s'.wire = s'.outside.wire from rfl, hs']
      exact hwire
    have hread : ((u.setInp u.conn.inp.getEvent.2).inRead e).1.conn.hasError = false := by
      split at halive <;> exact halive
    rw [← hs']
    refine (h'.inRead hread hwire').bind fun s'' hs'' h'' => ?_
    split
    · rw [← hs'']
      exact (h''.getEvent hread).map fun s' h' => leave (.event _) h'
    · rw [← hs'']
      exact (leave (.event none) h'').matched

/-- What follows a call of `_xcb_conn_wait` that did not fail. -/
theorem afterRead (h : Mirrors c phase [] u s) (halive : u.conn.hasError = false)
    (waiter : Waiter) : Matched c s s.outside phase [] (u.afterRead e t waiter true) := by
  cases waiter with
  | reply request => exact h.waitReply halive request
  | event => exact h.waitEvent halive

/-- A thread that has polled with nothing to write. -/
theorem finishRead (h : Mirrors c phase [] u s) {waiter : Waiter}
    (halive : (u.finishRead e t false waiter).conn.hasError = false)
    (hwire : (if e.pollin then e.packets else []) <+: s.wire) :
    Matched c s (s.outside.read (if e.pollin then e.packets else [])) phase []
      (u.finishRead e t false waiter) := by
  unfold System.finishRead at halive ⊢
  dsimp only at halive ⊢
  have hread : (u.pollRead e false).1.conn.hasError = false :=
    System.hasError_eq_false (System.serves_afterRead ((u.pollRead e false).1.endRead.setPc t .idle)
      e t waiter _).hasError halive
  have hret : (u.pollRead e false).2 = true := by
    by_contra hfalse
    rw [Bool.not_eq_true] at hfalse
    have herror := System.hasError_pollRead (e := e) (fun h => absurd h Bool.false_ne_true) hfalse
    rw [herror] at hread
    cases hread
  rw [hret]
  refine (h.pollRead hread hwire).bind fun s' hs' h' => ?_
  have hread' : Mirrors c phase [] (u.pollRead e false).1.endRead s' := h'.setInp rfl
  have hend : Mirrors c phase [] ((u.pollRead e false).1.endRead.setPc t .idle) s' :=
    hread'.setPc .idle trivial
  rw [← hs']
  exact hend.afterRead hread waiter

/-! ### Writing -/

section writing

variable {size : ℕ} {f : Flusher} {sender : Sender} {vector : List Iovec} {req : PreparedRequest}

omit [DecidableEq τ] in
/-- Only what the output half knows about threads has changed. -/
theorem setOut (h : Mirrors c phase owed u s) {out : XcbOut}
    (hout : out.forget = u.conn.out.forget) : Mirrors c phase owed (u.setOut out) s := by
  have hrequest : out.forget.request = u.conn.out.forget.request := by rw [hout]
  have hwritten : out.forget.requestWritten = u.conn.out.forget.requestWritten := by rw [hout]
  have hqueue : out.queue = u.conn.out.queue := by
    show out.forget.queue = u.conn.out.forget.queue
    rw [hout]
  refine { h with conn := ?_, request := hrequest.trans h.request, socket := ?_ }
  · have hphase : phase.written out = phase.written u.conn.out := by
      cases phase <;> assumption
    rw [h.conn, WritePhase.conn, ← hphase, XcbConnection.forget, ← hout]
    rfl
  · show s.socket = u.socket ++ gather out.queue phase.vector
    rw [hqueue]
    exact h.socket

theorem afterFlush (h : Mirrors c phase [] u s) (halive : u.conn.hasError = false)
    (hf : f.Streams) {ret : Bool} (hret : ret = false → u.conn.hasError = true) :
    Matched c s s.outside phase [] (u.afterFlush e t f ret) := by
  cases f with
  | flush target => exact (leave (.flushed target ret) h).matched
  | takeSocket flags => exact hf.elim
  | waitForReply request =>
    cases ret with
    | true => exact h.startReply halive request
    | false =>
      rw [hret rfl] at halive
      cases halive

theorem afterSend (h : Mirrors c phase [] u s) (halive : u.conn.hasError = false)
    (hsender : sender.Streams) {ret : Bool} (hret : ret = false → u.conn.hasError = true) :
    Matched c s s.outside phase [] (u.afterSend e t sender ret) := by
  cases sender with
  | send number last =>
    cases ret with
    | true => exact (leave (.sent (low32 number) last) h).matched
    | false =>
      rw [hret rfl] at halive
      cases halive
  | writev last => exact hsender.elim
  | flusher f => exact h.afterFlush halive hsender hret

theorem waitWrite (h : Mirrors c (.held vector) [] u s) (hwriting : u.conn.out.writing = 0) :
    Mirrors c (.poll t vector) [] (u.waitWrite t sender vector) s := by
  rw [System.waitWrite, if_neg (not_not.mpr hwriting)]
  have hreading : Mirrors c (.poll t vector) []
      (u.setInp { u.conn.inp with reading := u.conn.inp.reading + 1 }) s := h.poll.setInp rfl
  have hwrites : Mirrors c (.poll t vector) []
      ((u.setInp { u.conn.inp with reading := u.conn.inp.reading + 1 }).setOut
        { u.conn.out with writing := u.conn.out.writing + 1 }) s := hreading.setOut rfl
  exact hwrites.setPc _ trivial

omit [DecidableEq τ] in
/-- The end of `_xcb_out_send`, when everything is written. -/
theorem endSend (h : Mirrors c (.held []) [] u s) :
    Mirrors c .quiet [] (u.setOut { u.conn.out with requestWritten := u.conn.out.request }) s :=
  { h with }

/-- The loop of `_xcb_out_send`. What is in its vector has been written already. -/
theorem outSend (h : Mirrors c (.held vector) [] u s)
    (hs : System.Streaming False size (.held vector) u) (halive : u.conn.hasError = false)
    (hsender : sender.Streams) (hlast : sender.last ≤ u.requests.length) {ret : Bool}
    (hret : ret = false → u.conn.hasError = true) :
    Settles c size s s.outside (u.outSend e t sender ret vector) := by
  have htrue : ret = true := by
    by_contra hfalse
    rw [hret (by simpa using hfalse)] at halive
    cases halive
  subst htrue
  unfold System.outSend
  split
  · have hwait : Mirrors c (.poll t vector) [] (u.waitWrite t sender vector) s :=
      h.waitWrite hs.writing
    exact ⟨.poll t vector, (fun _ h => by cases h), hs.waitWrite hsender, hwait.matched⟩
  · next hend =>
    have hdone : vector = [] := by simpa using hend
    subst hdone
    set w := (u.setOut { u.conn.out with requestWritten := u.conn.out.request }).wakeUpNextReader e
    have hreads : System.Reads
        (u.setOut { u.conn.out with requestWritten := u.conn.out.request }) w :=
      System.reads_wakeUpNextReader _ e
    have hlast' : sender.last ≤ w.requests.length := by
      rw [hreads.requests]
      exact hlast
    have hend : Mirrors c .quiet [] w s := h.endSend.wakeUpNextReader
    have halive' : w.conn.hasError = false := by
      rw [show w.conn = _ from System.conn_signal _ e.order _]
      exact halive
    refine ⟨.quiet, (fun _ h => by cases h), ?_,
      hend.afterSend halive' hsender fun h => absurd h.symm Bool.false_ne_true⟩
    exact ((hs.endSend fun _ => rfl).moves (.of_reads hreads)).afterSend (fun _ h => by cases h)
      hsender hlast' fun h => h.elim

/-- The end of `_xcb_out_flush_to`, where another thread writes. The session has written already. -/
theorem awaitWritten (h : Mirrors c phase [] u s) (hs : System.Streaming False size phase u)
    (hheld : ∀ vector, phase ≠ .held vector) (hself : ∀ vector, phase ≠ .poll t vector)
    (halive : u.conn.hasError = false) (hf : f.Streams) (hlast : f.last ≤ u.requests.length)
    (request : BitVec 64) (n : ℕ) :
    Settles c size s s.outside (u.awaitWritten e t f request n) := by
  unfold System.awaitWritten
  split
  · next hwriting =>
    rw [hs.writing] at hwriting
    have hmove : System.Moves False phase u (u.setPc t (.awaitWritten f request n)) := by
      refine .setPc hf (fun _ _ _ hpc => by cases hpc) (fun w hw => absurd hw (hself w))
        fun g r m hpc => ⟨fun hquiet => hwriting (by rw [hquiet]; rfl), fun h => h.elim⟩
    have hwait : Mirrors c phase [] (u.setPc t (.awaitWritten f request n)) s := h.setPc _ trivial
    exact ⟨phase, hheld, hs.moves hmove, hwait.matched⟩
  · have hcheck := h.check .flushToWritten
      (sequenceCompare u.conn.out.requestWritten request ≥ 0)
    refine ⟨phase, hheld, ?_,
      hcheck.afterFlush halive hf fun h => absurd h.symm Bool.false_ne_true⟩
    exact (hs.moves (.check fun h => h.elim)).afterFlush hself hf hlast fun h => h.elim

/-- `_xcb_out_flush_to`, which the session calls as well. -/
theorem flushTo (h : Mirrors c phase [] u s) (hs : System.Streaming False size phase u)
    (hheld : ∀ vector, phase ≠ .held vector) (hself : ∀ vector, phase ≠ .poll t vector)
    (hsize : size < 2 ^ 31) (halive : u.conn.hasError = false) (hf : f.Streams)
    (hlast : f.last ≤ u.requests.length) {request : BitVec 64} {a : Action}
    (hwhole : WholeCall c.discards s a) (hstep : s.step a = some (s.flushTo request)) :
    Settles c size s s.outside (u.flushTo e t f request) := by
  have hcheck := h.check .flushToRequest (sequenceCompare request u.conn.out.request ≤ 0)
  have hchecked : System.Streaming False size phase
      (u.check .flushToRequest (sequenceCompare request u.conn.out.request ≤ 0)) :=
    hs.moves (.check fun h => h.elim)
  unfold System.flushTo
  dsimp only
  split
  · refine ⟨phase, hheld, ?_,
      hcheck.afterFlush halive hf fun h => absurd h.symm Bool.false_ne_true⟩
    exact hchecked.afterFlush hself hf hlast fun h => h.elim
  · next hless =>
    split
    · next hqueue =>
      have hquiet : phase = .quiet := not_not.mp fun hphase => hqueue (hs.empty hphase)
      subst hquiet
      have hless' : ¬ sequenceCompare u.conn.out.forget.requestWritten request ≥ 0 := hless
      have hflush : s.flushTo request =
          { s with
            socket := s.socket ++ gather u.conn.out.queue u.conn.out.takeQueue.2
            conn := { s.conn with
              out := { s.conn.out with
                queueLen := 0, requestWritten := s.conn.out.request } } } := by
        have hout : s.conn.out = u.conn.out.forget := by rw [h.conn_of_quiet]; rfl
        have hqueue' : u.conn.out.forget.queueLen ≠ 0 := hqueue
        unfold Session.flushTo
        rw [hout, if_neg hless', if_pos hqueue']
        rfl
      have hheld' : Mirrors c (.held u.conn.out.takeQueue.2) []
          ((u.check .flushToRequest (sequenceCompare request u.conn.out.request ≤ 0)).setOut
            u.conn.out.takeQueue.1) (s.flushTo request) := by
        rw [hflush]
        refine { hcheck with conn := ?_, socket := ?_ }
        · rw [h.conn]
          rfl
        · rw [h.socket_of_quiet]
          rfl
      have hends : (s.flushTo request).outside = s.outside := by
        rw [hflush]
        rfl
      have hsender : (Sender.flusher f).Streams := hf
      refine (hheld'.matched_step hwhole hstep hends).settles fun s' hs' h' => ?_
      rw [← hs']
      exact h'.outSend (hchecked.takeQueue hsize) halive hsender hlast fun h => by cases h
    · exact hcheck.awaitWritten hchecked hheld hself halive hf hlast request _

omit [DecidableEq τ] in
/-- Nothing is lost as long as the connection does not fail. -/
theorem loseEntries_of_alive {d : XcbConnection τ β} {old : ℕ} {noMemory : ℕ → Bool}
    (halive : (d.loseEntries old noMemory).hasError = false) : d.loseEntries old noMemory = d := by
  set new := (d.inp.pendingReplies.drop old).zipIdx with hnew
  have hboth : d.hasError = false ∧
      (new.filter fun entry => !noMemory entry.2).length = new.length := by
    simpa [XcbConnection.loseEntries, hnew] using halive
  have hall : (new.filter fun entry => !noMemory entry.2) = new :=
    List.filter_eq_self.mpr (List.length_filter_eq_length_iff.mp hboth.2)
  have hfst : new.map Prod.fst = d.inp.pendingReplies.drop old := List.zipIdx_map_fst ..
  unfold XcbConnection.loseEntries
  dsimp only
  rw [← hnew, hall, hfst, List.take_append_drop, bne_self_eq_false, Bool.or_false]

omit [DecidableEq τ] in
theorem map_encoding_newRequests (number : BitVec 64) (count : ℕ) (call : SendCall)
    (req : PreparedRequest) (fails : ℕ → Bool) :
    (Session.newRequests number count call req fails).map Request.encoding =
      List.replicate count syncReq ++ [req.encoding] := by
  have hsync : ∀ (count : ℕ) (number : BitVec 64),
      (Session.syncRequests number fails count).map Request.encoding =
        List.replicate count syncReq := by
    intro count
    induction count with
    | zero => exact fun _ => rfl
    | succ count ih =>
      intro number
      rw [Session.syncRequests, List.map_cons, ih, List.replicate_succ]
  rw [Session.newRequests, List.map_append, hsync]
  rfl

omit [DecidableEq τ] in
/-- A request is numbered. What does not fit into the queue is in the vector. -/
theorem number (h : Mirrors c .quiet [] u s)
    (halive : (u.numberRequest e req).conn.hasError = false) (call : SendCall) (fails : ℕ → Bool)
    {block : XcbOut × List Iovec}
    (hblock : (u.numberRequest e req).conn.out.writeBlock
      (req.vector ((u.conn.numberRequest req).2 ≠ 0)) = block) :
    Mirrors c (System.blockPhase block.2) [] ((u.numberRequest e req).setOut block.1)
        (s.sendRequest call req fails) ∧
      (s.sendRequest call req fails).outside = s.outside.number
        (Session.newRequests u.conn.out.request (u.conn.numberRequest req).2 call req fails) := by
  have hnumber : s.conn.numberRequest req =
      ((u.conn.numberRequest req).1.forget, (u.conn.numberRequest req).2) := by
    rw [h.conn_of_quiet, XcbConnection.forget_numberRequest]
  have hconn : (u.numberRequest e req).conn = (u.conn.numberRequest req).1 :=
    loseEntries_of_alive halive
  rw [hconn] at hblock
  have hrequests := System.requests_numberRequest u e req
  have hsent : s.sendRequest call req fails =
      { s with
        conn := (System.blockPhase block.2 : WritePhase τ).conn
          { (u.conn.numberRequest req).1 with out := block.1 }
        requests := s.requests ++
          Session.newRequests u.conn.out.request (u.conn.numberRequest req).2 call req fails
        socket := s.socket ++ gather block.1.queue block.2 } := by
    have hblock' : (u.conn.numberRequest req).1.forget.out.writeBlock
        (req.vector ((u.conn.numberRequest req).2 ≠ 0)) = (block.1.forget, block.2) := by
      rw [← hblock]
      exact XcbOut.forget_writeBlock _ _
    rw [Session.sendRequest, Session.number_eq, hnumber, Session.writeBlock]
    dsimp only
    rw [hblock', h.outRequest]
    dsimp only
    by_cases hrest : block.2 = []
    · rw [if_pos hrest, System.blockPhase, if_pos hrest, hrest, gather_nil, List.append_nil]
      rfl
    · rw [if_neg hrest, System.blockPhase, if_neg hrest]
      rfl
  rw [hsent]
  refine ⟨⟨?_, ?_, ?_, ?_, ?_, h.handed, h.pcs⟩, rfl⟩
  · show _ = WritePhase.conn _ { (u.numberRequest e req).conn with out := block.1 }
    rw [hconn]
  · show (u.numberRequest e req).conn.setupMaximumRequestLength = _
    rw [hconn, numberRequest_fst]
    exact h.maximum
  · obtain ⟨queue, queueLen, heq⟩ := out_writeBlock_eq (u.conn.numberRequest req).1.out
      (req.vector ((u.conn.numberRequest req).2 ≠ 0))
    show block.1.request = BitVec.ofNat 64 (u.numberRequest e req).requests.length
    rw [← hblock, heq, hrequests, List.length_append, List.length_append, List.length_replicate,
      List.length_singleton, BitVec.ofNat_add, ← h.request, numberRequest_fst]
  · show (s.requests ++ _).map Request.encoding = (u.numberRequest e req).requests
    rw [List.map_append, map_encoding_newRequests, h.requests, hrequests]
  · rw [h.socket_of_quiet, System.vector_blockPhase]
    rfl

/-- What a run of a thread that is about to number `req` adds to the requests. -/
theorem sendRequest (h : Mirrors c .quiet [] u s) (hs : System.Streaming False size .quiet u)
    (hsize : size < 2 ^ 31) (halive : (u.sendRequest e t req).conn.hasError = false)
    (hreq : req.Ordinary False) (hsingle : ¬ u.conn.DoubleSync req.isvoid) {call : SendCall}
    (hcall : call.prepare c.maximum = some req) (fails : ℕ → Bool) :
    Settles c size s
        (s.outside.number
          (Session.newRequests u.conn.out.request (u.conn.numberRequest req).2 call req fails))
        (u.sendRequest e t req) ∧
      (u.sendRequest e t req).requests.length =
        u.requests.length + ((u.conn.numberRequest req).2 + 1) := by
  set w := u.note (.numbered u.conn.out.writing u.conn.out.returnSocket.isSome) with hw
  have hnote : Mirrors c .quiet [] w s := note (.numbered _ _) h
  have hstream : System.Streaming False size .quiet w := hs.moves (.note fun h => h.elim)
  have hfollows : System.Follows True (w.numberRequest e req) (u.sendRequest e t req) :=
    System.follows_writeBlock _ _ _
  have hnumbered : (w.numberRequest e req).conn.hasError = false :=
    System.hasError_eq_false hfollows.error halive
  have halive' : u.conn.hasError = false := by
    refine System.hasError_eq_false (fun herror => ?_) hnumbered
    have hfollows : System.Follows False w (w.numberRequest e req) :=
      System.follows_numberRequest w e req id
    exact hfollows.error herror
  have hstep : s.step (.send call fails) = some (s.sendRequest call req fails) := by
    refine Session.step_send (by rw [h.hasError, halive']) ?_ ?_ fails
    · rw [h.conn_of_quiet]
      exact hs.unowned
    · rw [h.conn_of_quiet]
      exact h.maximum ▸ hcall
  have hlength : (u.sendRequest e t req).requests.length =
      u.requests.length + ((u.conn.numberRequest req).2 + 1) := by
    rw [(hfollows.same trivial).1, System.requests_numberRequest, List.length_append,
      List.length_append, List.length_replicate, List.length_singleton]
    rfl
  refine ⟨?_, hlength⟩
  obtain ⟨hblock, hends⟩ := hnote.number hnumbered call fails rfl
  have hphase := hstream.number (e := e) hsize hreq hsingle rfl
  refine (hblock.matched_step (.of_ne s rfl rfl fun _ h => by cases h) hstep hends).settles
    fun s' hs' h' => ?_
  suffices hgoal : Settles c size s' s'.outside (u.sendRequest e t req) by
    rw [hs'] at hgoal
    exact hgoal
  unfold System.sendRequest System.writeBlock
  dsimp only
  split
  · next hnil =>
    rw [System.blockPhase, if_pos hnil] at hphase h'
    exact ⟨.quiet, (fun _ h => by cases h), hphase.leave (fun _ h => by cases h) fun h => h.elim,
      (leave (.sent _ _) h').matched⟩
  · next hne =>
    rw [System.blockPhase, if_neg hne] at hphase h'
    refine h'.outSend hphase hnumbered ?_ (Nat.le_refl _) fun h => by cases h
    trivial

/-- The first loop of `xcb_send_request`, without handoffs. -/
theorem awaitTurn (h : Mirrors c phase [] u s) (hs : System.Streaming False size phase u)
    (hheld : ∀ vector, phase ≠ .held vector) (hself : ∀ vector, phase ≠ .poll t vector)
    (hsize : size < 2 ^ 31) (halive : (u.awaitTurn e t req).conn.hasError = false)
    (hreq : req.Ordinary False) (hsingle : u.conn.out.writing = 0 → ¬ u.conn.DoubleSync req.isvoid)
    {call : SendCall} (hcall : call ∈ c.calls t) (hprepare : call.prepare c.maximum = some req)
    (fails : ℕ → Bool) :
    Settles c size s
      (s.outside.number (numberedBy u.conn.out.request call req fails
        ((u.awaitTurn e t req).requests.length - u.requests.length)))
      (u.awaitTurn e t req) := by
  unfold System.awaitTurn at halive ⊢
  split at halive
  · next hwriting =>
    rw [if_pos hwriting, show (u.setPc t (.awaitTurn req)).requests = u.requests from rfl,
      Nat.sub_self, numberedBy, s.outside.number_nil]
    have hmove : System.Moves False phase u (u.setPc t (.awaitTurn req)) :=
      .setPc hreq (fun _ _ _ h => by cases h) (fun w hw => absurd hw (hself w))
        fun _ _ _ h => by cases h
    have hwait : Mirrors c phase [] (u.setPc t (.awaitTurn req)) s :=
      h.setPc (.awaitTurn req) ⟨call, hcall, hprepare⟩
    exact ⟨phase, hheld, hs.moves hmove, hwait.matched⟩
  · next hwriting =>
    rw [if_neg hwriting]
    rw [not_not] at hwriting
    have hquiet := hs.quiet_of_writing hheld hwriting
    subst hquiet
    have hsend : u.getSocketBack e t (.send req) = u.sendRequest e t req := by
      rw [System.getSocketBack, hs.unowned, System.afterSocket]
    rw [hsend] at halive ⊢
    obtain ⟨hsettles, hlength⟩ :=
      h.sendRequest hs hsize halive hreq (hsingle hwriting) hprepare fails
    rw [hlength, Nat.add_sub_cancel_left, numberedBy]
    exact hsettles

omit [DecidableEq τ] in
/-- `xcb_discard_reply` -/
theorem discardReply (h : Mirrors c phase [] u s) (halive : u.conn.hasError = false)
    {request : BitVec 32} (hdiscards : c.discards) (hrequest : request ≠ 0) :
    Matched c s s.outside phase []
      (u.setInp (u.conn.inp.discardReply u.conn.out.request request)) := by
  have hstep : s.step (.discard request) = some (s.discard request) := by
    simp [Session.step, h.hasError, halive]
  have hdiscard : Mirrors c phase []
      (u.setInp (u.conn.inp.discardReply u.conn.out.request request)) (s.discard request) := by
    refine { h with conn := ?_ }
    rw [Session.discard, if_neg hrequest, h.inp, h.outRequest, ← XcbIn.forget_discardReply, h.conn]
    rfl
  exact hdiscard.matched_step ⟨rfl, fun _ => hdiscards, fun _ h => by cases h⟩ hstep rfl

/-- What a thread does when it gets the lock, unless it sends a request or polls for an event. -/
theorem start (h : Mirrors c phase [] u s) (hs : System.Streaming False size phase u)
    (hheld : ∀ vector, phase ≠ .held vector) (hself : ∀ vector, phase ≠ .poll t vector)
    (hsize : size < 2 ^ 31) (halive : u.conn.hasError = false) {call : Call PreparedRequest}
    (hcall : (Pc.lock call).Streams False) (hallows : c.Allows t (.lock call))
    (hsend : (Pc.lock call).pendingSend = none) (hpoll : call ≠ .pollForEvent) :
    Settles c size s s.outside (u.start e t call) := by
  have hreads : ∀ v : System τ Stamp, System.Serves t u v → Matched c s s.outside phase [] v →
      Settles c size s s.outside v := fun v hserves hmatched =>
    ⟨phase, hheld, hs.moves (.of_serves hself hserves), hmatched⟩
  cases call with
  | send req => cases hsend
  | flush =>
    have hstep : s.step .flush = some (s.flushTo u.conn.out.request) := by
      simp [Session.step, h.hasError, halive, h.outRequest]
    have hflush : (Flusher.flush u.requests.length).Streams := trivial
    exact h.flushTo hs hheld hself hsize halive hflush (Nat.le_refl _)
      (.of_ne s rfl rfl fun _ h => by cases h) hstep
  | takeSocket flags => exact hcall.elim
  | writev vector requests => exact hcall.elim
  | waitForReply request =>
    have hnone : s.conn.out.returnSocket.isSome = false := by
      rw [h.conn]
      exact congrArg Option.isSome hs.unowned
    have hcookie : BitVec.ofNat 32 request.toNat = request := BitVec.ofNat_toNat ..
    have hstep : s.step (.awaitReply request.toNat) =
        some (s.flushTo (widenRequest u.conn.out.request request)) := by
      simp [Session.step, Session.awaitReply, h.hasError, halive, hnone, hcookie, h.outRequest]
    have hflush : (Flusher.waitForReply request).Streams := trivial
    unfold System.start
    dsimp only
    rw [hs.unowned, Option.isSome_none, if_neg Bool.false_ne_true]
    exact h.flushTo hs hheld hself hsize halive hflush (Nat.zero_le _)
      (.of_ne s rfl rfl fun _ h => by cases h) hstep
  | pollForReply request =>
    exact hreads _ (System.serves_pollForReply u t request)
      ((h.pollForReply halive request).map fun s' h' => leave (.polled request _) h')
  | discardReply request =>
    exact hreads _ (System.serves_discardReply u t request)
      ((h.discardReply halive hallows.1 hallows.2).map fun s' h' =>
        leave (.discarded request) h')
  | waitForEvent => exact hreads _ (System.serves_waitEvent u e t) (h.waitEvent halive)
  | pollForEvent => exact absurd rfl hpoll

omit [DecidableEq τ] in
/-- `write_vec`. The session has written all of it already. -/
theorem writeVec (h : Mirrors c (.held vector) [] u s)
    (hsane : ∀ v ∈ vector, v.Sane u.conn.out.queue) {w : WriteResult}
    (hvalid : w.Valid (gather u.conn.out.queue vector).length)
    (halive : (u.writeVec vector w).1.conn.hasError = false) :
    Mirrors c (.held (u.writeVec vector w).2.2) [] (u.writeVec vector w).1 s := by
  have hcheck := h.check .writeVecQueue (u.conn.out.queueLen = 0)
  cases w with
  | again => exact hcheck
  | failed => cases halive
  | wrote n =>
    obtain ⟨-, hle, hn⟩ := hvalid
    obtain ⟨-, hgather, -⟩ := gather_writeVec hsane hn hle
    have hwrote : Mirrors c (.held (Xcb.writeVec vector n).1) []
        { u.check .writeVecQueue (u.conn.out.queueLen = 0) with
          socket := u.socket ++ (gather u.conn.out.queue vector).take n } s := by
      refine { hcheck with socket := ?_ }
      rw [h.socket, WritePhase.vector, WritePhase.vector]
      show _ = u.socket ++ (gather u.conn.out.queue vector).take n ++
        gather u.conn.out.queue (Xcb.writeVec vector n).1
      rw [hgather, List.append_assoc, List.take_append_drop]
    exact hwrote.check _ _

/-- A thread that has polled with something to write. -/
theorem finishWrite (h : Mirrors c (.poll t vector) [] u s)
    (hs : System.Streaming False size (.poll t vector) u) (hsender : sender.Streams)
    (hlast : sender.last ≤ u.requests.length)
    (hvalid : e.writev.Valid (gather u.conn.out.queue vector).length)
    (halive : (u.finishWrite e t false sender vector).conn.hasError = false)
    (hwire : (if e.pollin then e.packets else []) <+: s.wire) :
    Settles c size s (s.outside.read (if e.pollin then e.packets else []))
      (u.finishWrite e t false sender vector) := by
  set w := (u.pollRead e false).1 with hw
  have hread : System.Reads u w := System.reads_pollRead u e false
  have hidle : System.Streaming False size (.held vector) (w.endWrite.endRead.setPc t .idle) :=
    hs.endPoll.moves (.of_reads (hread.leavePoll t))
  have hlast' : sender.last ≤ w.requests.length := by
    rw [hread.requests]
    exact hlast
  have hvalid' : e.writev.Valid (gather w.conn.out.queue vector).length := by
    rw [hread.out]
    exact hvalid
  -- nothing that failed would have gone on like this
  have hsent : ((u.pollWrite e false vector).1.endWrite.endRead.setPc t .idle).conn.hasError =
      false := by
    have hwrites : System.Follows False u (u.pollWrite e false vector).1 :=
      System.follows_pollWrite u vector fun h => h.elim
    have hlast : sender.last ≤
        ((u.pollWrite e false vector).1.endWrite.endRead.setPc t .idle).requests.length :=
      hlast.trans hwrites.requests
    have hsends : System.Follows False _ (u.finishWrite e t false sender vector) :=
      System.follows_outSend hlast _ _
    exact System.hasError_eq_false hsends.error halive
  have hpolled : w.conn.hasError = false := by
    refine System.hasError_eq_false (fun herror => ?_) hsent
    unfold System.pollWrite
    dsimp only
    split
    · have hfollows : System.Follows False w (w.writeVec vector e.writev).1 :=
        System.follows_writeVec w vector fun h => h.elim
      exact hfollows.error herror
    · exact herror
  have hret : (u.pollRead e false).2 = true := by
    by_contra hfalse
    rw [Bool.not_eq_true] at hfalse
    have herror := System.hasError_pollRead (e := e) (fun h => absurd h Bool.false_ne_true) hfalse
    rw [← hw, hpolled] at herror
    cases herror
  refine (h.pollRead hpolled hwire).settles fun s' hs' h' => ?_
  rw [← hs']
  have hleave : ∀ {v : System τ Stamp} {rest : List Iovec}, Mirrors c (.held rest) [] v s' →
      Mirrors c (.held rest) [] (v.endWrite.endRead.setPc t .idle) s' := by
    intro v rest hv
    have hwriting : Mirrors c (.held rest) [] v.endWrite s' := hv.setOut rfl
    have hreading : Mirrors c (.held rest) [] v.endWrite.endRead s' := hwriting.setInp rfl
    exact hreading.setPc .idle trivial
  unfold System.finishWrite
  dsimp only
  unfold System.pollWrite at hsent ⊢
  dsimp only at hsent ⊢
  rw [hret, ← hw, Bool.and_true] at hsent ⊢
  cases hout : e.pollout with
  | true =>
    rw [hout, if_pos rfl] at hsent
    rw [if_pos rfl]
    have hcomm : ((w.writeVec vector e.writev).1.endWrite.endRead.setPc t .idle,
        (w.writeVec vector e.writev).2) =
        (w.endWrite.endRead.setPc t .idle).writeVec vector e.writev := by
      cases e.writev <;> rfl
    obtain ⟨hwrite, hok⟩ := hidle.writeVec (w := e.writev) hvalid'
    rw [← hcomm] at hwrite hok
    have hwrote := h'.held.writeVec (fun v hv => (hread.out ▸ hs.sane v hv)) hvalid' hsent
    refine (hleave hwrote).outSend hwrite hsent hsender ?_ hok
    show sender.last ≤ (w.writeVec vector e.writev).1.requests.length
    rw [System.requests_writeVec]
    exact hlast'
  | false =>
    rw [if_neg Bool.false_ne_true]
    exact (hleave h'.held).outSend hidle hpolled hsender hlast'
      fun h => absurd h.symm Bool.false_ne_true

/-! ### One stretch of code -/

variable [Fintype τ]

/-- **One stretch of code is whole calls.** -/
theorem run (h : Mirrors c phase [] u s) (hs : System.Streaming False size phase u)
    (hheld : ∀ vector, phase ≠ .held vector) (hsize : size < 2 ^ 31) (hbounded : u.Bounded)
    (hsingle : u.Singly (.run t e)) (hwire : u.received (.run t e) <+: s.wire) (fails : ℕ → Bool)
    (hstep : u.run t e = some v) (halive : v.conn.hasError = false) :
    Settles c size s ((s.outside.read (u.received (.run t e))).number
      (u.numbered v c.calls fails (.run t e))) v := by
  have hpc := hs.pcs t
  have hallows := h.pcs t
  have hlast := hbounded t
  have halive' : u.conn.hasError = false :=
    System.hasError_eq_false (System.follows_run hbounded hstep).error halive
  have hidle : (∀ failed sender vector, u.threads t ≠ .pollOut failed sender vector) →
      (∀ vector, phase ≠ .poll t vector) ∧
        System.Streaming False size phase (u.setPc t .idle) := by
    intro hne
    have hself : ∀ vector, phase ≠ .poll t vector := by
      intro vector hphase
      obtain ⟨failed, sender, hpoll⟩ := hs.polling t vector hphase
      exact hne failed sender vector hpoll
    exact ⟨hself, hs.moves (.idle hself)⟩
  have hleave : Mirrors c phase [] (u.setPc t .idle) s := h.setPc .idle trivial
  have hnone : (u.threads t).pendingSend = none → u.numbered v c.calls fails (.run t e) = [] := by
    intro hsend
    rw [System.numbered, hsend]
    cases c.calls t <;> rfl
  have hreads : (∀ read, u.readsFrom t e ≠ some read) → u.received (.run t e) = [] := by
    intro hne
    rw [System.received, Option.eq_none_iff_forall_ne_some.mpr hne]
    rfl
  -- the thread reads nothing and numbers nothing
  have hquiet : (∀ read, u.readsFrom t e ≠ some read) → (u.threads t).pendingSend = none →
      Settles c size s s.outside v →
      Settles c size s ((s.outside.read (u.received (.run t e))).number
        (u.numbered v c.calls fails (.run t e))) v := by
    intro hne hsend hsettles
    rw [hreads hne, hnone hsend, s.outside.read_nil, s.outside.number_nil]
    exact hsettles
  -- it numbers its request, or goes on waiting for its turn
  have hsend : (∀ read, u.readsFrom t e ≠ some read) → ∀ req,
      (u.threads t).pendingSend = some req →
      (∃ call ∈ c.calls t, call.prepare c.maximum = some req) →
      (∀ call ∈ c.calls t, call.prepare c.maximum = some req →
        Settles c size s (s.outside.number (numberedBy u.conn.out.request call req fails
          (v.requests.length - u.requests.length))) v) →
      Settles c size s ((s.outside.read (u.received (.run t e))).number
        (u.numbered v c.calls fails (.run t e))) v := by
    rintro hne req hreq ⟨call, hcall, hprepare⟩ hsettles
    rw [hreads hne, System.numbered, hreq, Option.mem_def.mp hcall, s.outside.read_nil]
    exact hsettles call hcall hprepare
  unfold System.run at hstep
  split at hstep
  · cases hstep
  · next call ht =>
    cases hstep
    obtain ⟨hself, hstream⟩ := hidle (by rw [ht]; exact fun _ _ _ h => by cases h)
    rw [ht] at hpc hallows
    cases call with
    | send req =>
      refine hsend ?_ req (by rw [ht]; rfl) hallows ?_
      · rw [System.readsFrom, ht]
        exact fun _ h => by cases h
      · intro call hcall hprepare
        rw [System.Singly, ht] at hsingle
        exact hleave.awaitTurn hstream hheld hself hsize halive hpc hsingle hcall hprepare fails
    | pollForEvent =>
      have hread : u.received (.run t e) = if u.conn.inp.events.isEmpty then e.packets else [] := by
        rw [System.received, System.readsFrom, ht]
        cases u.conn.inp.events.isEmpty <;> rfl
      rw [hread] at hwire ⊢
      rw [hnone (by rw [ht]; rfl), Outside.number_nil]
      exact ⟨phase, hheld, hstream.moves (.of_serves hself (System.serves_pollEvent _ e t)),
        hleave.pollEvent halive hwire⟩
    | _ =>
      refine hquiet ?_ (by rw [ht]; rfl) (hleave.start hstream hheld hself hsize halive' hpc hallows
        rfl fun h => by cases h)
      rw [System.readsFrom, ht]
      exact fun _ h => by cases h
  · next req ht =>
    cases hstep
    obtain ⟨hself, hstream⟩ := hidle (by rw [ht]; exact fun _ _ _ h => by cases h)
    rw [ht] at hpc hallows
    refine hsend ?_ req (by rw [ht]; rfl) hallows ?_
    · rw [System.readsFrom, ht]
      exact fun _ h => by cases h
    · intro call hcall hprepare
      rw [System.Singly, ht] at hsingle
      exact hleave.awaitTurn hstream hheld hself hsize halive hpc hsingle hcall hprepare fails
  · next ht =>
    rw [ht] at hpc
    exact hpc.elim
  · next ht =>
    rw [ht] at hpc
    exact hpc.elim
  · next ht =>
    rw [ht] at hpc
    exact hpc.elim
  · next failed sender vector ht =>
    obtain ⟨hphase, hfailed⟩ := hs.pollers t failed sender vector ht
    subst hphase
    split at hstep
    · next hvalid =>
      cases hstep
      rw [ht] at hpc hlast
      have hfalse : failed = false := by
        by_contra htrue
        rw [hfailed (by simpa using htrue)] at halive'
        cases halive'
      subst hfalse
      have hread : u.received (.run t e) = if e.pollin then e.packets else [] := by
        rw [System.received, System.readsFrom, ht]
        cases e.pollin <;> rfl
      rw [hread] at hwire ⊢
      rw [hnone (by rw [ht]; rfl), Outside.number_nil]
      exact h.finishWrite hs hpc hlast hvalid halive hwire
    · cases hstep
  · next f request n ht =>
    cases hstep
    rw [ht] at hpc hlast
    obtain ⟨hself, hstream⟩ := hidle (by rw [ht]; exact fun _ _ _ h => by cases h)
    refine hquiet ?_ ?_ (hleave.awaitWritten hstream hheld hself halive' hpc hlast request n)
    · rw [System.readsFrom, ht]
      exact fun _ h => by cases h
    · rw [ht]
      rfl
  · next waiter ht =>
    cases hstep
    obtain ⟨hself, hstream⟩ := hidle (by rw [ht]; exact fun _ _ _ h => by cases h)
    refine hquiet ?_ ?_ ⟨phase, hheld,
      hstream.moves (.of_serves hself (System.serves_afterRead _ e t waiter true)),
      hleave.afterRead halive' waiter⟩
    · rw [System.readsFrom, ht]
      exact fun _ h => by cases h
    · rw [ht]
      rfl
  · next failed waiter ht =>
    cases hstep
    obtain ⟨hself, -⟩ := hidle (by rw [ht]; exact fun _ _ _ h => by cases h)
    rw [ht] at hallows
    have hfalse : failed = false := hallows
    subst hfalse
    have hread : u.received (.run t e) = if e.pollin then e.packets else [] := by
      rw [System.received, System.readsFrom, ht]
      cases e.pollin <;> rfl
    rw [hread] at hwire ⊢
    rw [hnone (by rw [ht]; rfl), Outside.number_nil]
    exact ⟨phase, hheld, hs.moves (.of_serves hself (System.serves_finishRead u e t _ waiter)),
      h.finishRead halive hwire⟩

end writing

/-! ### Calls -/

omit [DecidableEq τ] in
/-- Another call of a thread that was in none. -/
theorem setCalls (h : Mirrors c phase owed u s) (ht : u.threads t = .idle)
    {calls : τ → Option SendCall} (hcalls : ∀ v, v ≠ t → calls v = c.calls v) :
    Mirrors { c with calls := calls } phase owed u s := by
  refine { h with pcs := fun v => ?_ }
  by_cases hv : v = t
  · rw [hv, ht]
    trivial
  · have hallows := h.pcs v
    unfold Setting.Allows at hallows ⊢
    dsimp only
    rw [hcalls v hv]
    exact hallows

/-- A thread calls a function. The session does nothing before the thread has the lock. -/
theorem call (h : Mirrors c phase [] u s) {call : Call SendCall}
    (hhandoff : (System.Action.call t call : System.Action τ Stamp).isHandoff = false)
    (hdiscards : (System.Action.call t call : System.Action τ Stamp).isDiscard = true → c.discards)
    (hstep : u.call t call = some v) (halive : v.conn.hasError = false) :
    Mirrors { c with calls := (System.Action.call t call : System.Action τ Stamp).remember c.calls }
      phase [] v s := by
  unfold System.call at hstep
  split at hstep
  · next ht =>
    have hcalls : Mirrors { c with
        calls := (System.Action.call t call : System.Action τ Stamp).remember c.calls }
        phase [] u s := by
      refine h.setCalls ht fun v hv => ?_
      cases call with
      | send call => exact Function.update_of_ne hv _ _
      | _ => rfl
    split at hstep
    · split at hstep
      · next herror =>
        cases hstep
        have hsame : (u.refuse call).conn = u.conn := by cases call <;> rfl
        rw [hsame, herror] at halive
        cases halive
      · cases hstep
        cases call with
        | send call =>
          unfold System.enter at halive ⊢
          dsimp only at halive ⊢
          split at halive
          · next req hreq =>
            refine hcalls.setPc (.lock (.send req)) ⟨call, ?_, by rw [← h.maximum]; exact hreq⟩
            exact Function.update_self ..
          · cases halive
        | discardReply request =>
          unfold System.enter
          dsimp only
          split
          · exact note (.discarded request) hcalls
          · next hrequest => exact hcalls.setPc (.lock _) ⟨hdiscards rfl, hrequest⟩
        | takeSocket flags => cases hhandoff
        | writev vector requests => cases hhandoff
        | _ => exact hcalls.setPc (.lock _) trivial
    · cases hstep
  · cases hstep

end Mirrors

/-! ### The server -/

/-- A server that has seen more can still take the request. -/
theorem Session.step_handle {s s' t : Session} (hends : s'.outside = s.outside)
    (hsocket : s.socket.length ≤ s'.socket.length) (hstep : s.step .handle = some t) :
    t = s.handle ∧ s'.step .handle = some s'.handle := by
  have hrequests : s'.requests = s.requests := congrArg Outside.requests hends
  have hserver : s'.server = s.server := congrArg Outside.server hends
  simp only [Session.step] at hstep ⊢
  split at hstep
  · next hcond =>
    cases hstep
    refine ⟨rfl, if_pos ?_⟩
    simp only [Session.handed, Session.answered, Session.request?, Bool.and_eq_true,
      decide_eq_true_eq, hrequests, hserver] at hcond ⊢
    exact ⟨⟨hcond.1.1, hcond.1.2.trans hsocket⟩, hcond.2⟩
  · cases hstep

theorem Session.step_emit {s s' t : Session} (hends : s'.outside = s.outside)
    {responseType : BitVec 8} {sequence : BitVec 16} {bytes : List UInt8}
    (hstep : s.step (.emit responseType sequence bytes) = some t) :
    t = s.emit (s.packet responseType sequence bytes) ∧
      s'.step (.emit responseType sequence bytes) =
        some (s'.emit (s.packet responseType sequence bytes)) := by
  have hrequests : s'.requests = s.requests := congrArg Outside.requests hends
  have hserver : s'.server = s.server := congrArg Outside.server hends
  have hpacket : s'.packet responseType sequence bytes = s.packet responseType sequence bytes := by
    rw [Session.packet, Session.packet, hserver]
  simp only [Session.step] at hstep ⊢
  split at hstep
  · next hcond =>
    cases hstep
    refine ⟨rfl, ?_⟩
    rw [hpacket, if_pos]
    simpa only [Session.canEmit, Session.request?, hrequests, hserver] using hcond
  · cases hstep

/-! ### Runs -/

namespace Network

variable [DecidableEq τ] {n m : Network τ} {size : ℕ} {maximum : BitVec 16} {discards : Prop}

/-- The parts of requests can be counted by an `int`. If not `discards`, then no reply is
discarded. -/
def Plain (discards : Prop) (_ : Network τ) : Network.Action τ → Prop
  | .thread a _ => a.Ordinary False ∧ (a.isDiscard = true → discards)
  | _ => True

/-- The session has got as far as the network, unless the connection has failed. -/
structure Conforms (size : ℕ) (maximum : BitVec 16) (discards : Prop) (n : Network τ)
    (s : Session) : Prop where
  bounded : n.system.Bounded
  alive : n.system.conn.hasError = false → s.outside = n.outside ∧
    ∃ phase, (∀ vector, phase ≠ .held vector) ∧ System.Streaming False size phase n.system ∧
      Mirrors ⟨maximum, n.calls, discards⟩ phase [] n.system s

omit [DecidableEq τ] in
theorem conforms_init (size : ℕ) (maximum : BitVec 16) (discards : Prop) :
    Conforms size maximum discards (Network.init size maximum : Network τ)
      (Session.init size maximum) := by
  obtain ⟨phase, hheld, hs⟩ :=
    System.settled_init (τ := τ) (β := Stamp) False size maximum
  have hquiet := hs.quiet_of_writing hheld rfl
  subst hquiet
  exact ⟨fun _ => Nat.le_refl 0, fun _ => ⟨rfl, .quiet, hheld, hs,
    rfl, rfl, rfl, rfl, rfl, rfl, fun _ => trivial⟩⟩

variable [Fintype τ] {s : Session}

/-- A step of a thread is whole calls. -/
theorem Conforms.thread (h : Conforms size maximum discards n s) (hsize : size < 2 ^ 31)
    {a : System.Action τ Stamp} {fails : ℕ → Bool} (hok : Plain discards n (.thread a fails))
    (hlt : n.system.requests.length < 2 ^ 64 - 2) (hhandoff : a.isHandoff = false)
    (hwire : n.system.received a <+: n.outside.wire) {system : System τ Stamp}
    (hstep : n.system.step a = some system) :
    ∃ s', Transition.Reach Session.step (WholeCall discards) s s' ∧
      Conforms size maximum discards (n.advance system a fails) s' := by
  have hfollows := System.follows_step h.bounded hstep
  have hbounded := hfollows.bounded h.bounded
  by_cases herror : system.conn.hasError = true
  · exact ⟨s, .refl s, hbounded, fun halive => absurd (halive.symm.trans herror) Bool.false_ne_true⟩
  · rw [Bool.not_eq_true] at herror
    obtain ⟨hends, phase, hheld, hs, hmirrors⟩ :=
      h.alive (System.hasError_eq_false hfollows.error herror)
    cases a with
    | call t call =>
      refine ⟨s, .refl s, hbounded, fun _ => ⟨?_, phase, hheld, hs.call hok.1 hstep, ?_⟩⟩
      · rw [hends]
        show _ = (n.outside.read []).number []
        rw [Outside.read_nil, Outside.number_nil]
      · exact hmirrors.call hhandoff hok.2 hstep herror
    | pollFails t =>
      have hfailed : system.conn.hasError = true := by
        simp only [System.step, System.pollFails] at hstep
        split at hstep <;> cases hstep <;> rfl
      rw [hfailed] at herror
      cases herror
    | run t e =>
      have hsingle : n.system.Singly (.run t e) := by
        have hnot : ∀ isvoid, ¬ n.system.conn.DoubleSync isvoid := by
          rintro isvoid ⟨-, hrequest, -⟩
          rw [hmirrors.request] at hrequest
          have := congrArg BitVec.toNat hrequest
          rw [BitVec.toNat_ofNat, Nat.mod_eq_of_lt (by omega)] at this
          simp at this
          omega
        unfold System.Singly
        dsimp only
        split <;> first | exact fun _ => hnot _ | trivial
      have hwire' : n.system.received (.run t e) <+: s.wire := by
        rw [show s.wire = n.outside.wire from congrArg Outside.wire hends]
        exact hwire
      obtain ⟨phase', hheld', hs', s', hreach, hends', hmirrors'⟩ :=
        hmirrors.run hs hheld hsize h.bounded hsingle hwire' fails hstep herror
      refine ⟨s', hreach, hbounded, fun _ => ⟨?_, phase', hheld', hs', hmirrors'⟩⟩
      rw [hends', hends]
      rfl

omit [DecidableEq τ] [Fintype τ] in
theorem outside_view (n : Network τ) : n.view.outside = n.outside := by
  have hreads : n.view.reads = n.outside.reads := by
    rw [Session.reads, Network.view, List.filterMap_map]
    exact List.filterMap_some
  rw [Session.outside, hreads]
  rfl

omit [DecidableEq τ] [Fintype τ] in
/-- A step of the server is one. The session's server has seen at least as much. -/
theorem Conforms.server (h : Conforms size maximum discards n s) {a : Xcb.Action}
    {t : Session} (hwhole : WholeCall discards s a)
    (hserver : s.outside = n.view.outside → n.view.socket.length ≤ s.socket.length →
      ∃ s', s.step a = some s' ∧ s'.conn = s.conn ∧ s'.socket = s.socket ∧
        s'.log = s.log ∧ s'.requests = s.requests ∧ s'.outside = t.outside) :
    ∃ s', Transition.Reach Session.step (WholeCall discards) s s' ∧
      Conforms size maximum discards { n with outside := t.outside } s' := by
  by_cases herror : n.system.conn.hasError = true
  · exact ⟨s, .refl s, h.bounded,
      fun halive => absurd (halive.symm.trans herror) Bool.false_ne_true⟩
  · obtain ⟨hends, phase, hheld, hs, hmirrors⟩ := h.alive (Bool.eq_false_iff.mpr herror)
    have hsocket : n.view.socket.length ≤ s.socket.length := by
      rw [hmirrors.socket, List.length_append]
      exact Nat.le_add_right _ _
    obtain ⟨s', hstep, hconn, hsocket', hlog, hrequests, hends'⟩ :=
      hserver (hends.trans n.outside_view.symm) hsocket
    refine ⟨s', .single hwhole hstep, h.bounded, fun _ => ⟨hends', phase, hheld, hs, ?_⟩⟩
    exact ⟨hconn.trans hmirrors.conn, hmirrors.maximum, hmirrors.request,
      (congrArg _ hrequests).trans hmirrors.requests, hsocket'.trans hmirrors.socket,
      (congrArg _ hlog).trans hmirrors.handed, hmirrors.pcs⟩

/-- **One step** of the threads or of the server is whole calls, or one step of the server. -/
theorem Conforms.step (h : Conforms size maximum discards n s) (hsize : size < 2 ^ 31)
    {a : Network.Action τ} (hok : Plain discards n a)
    (hlt : n.system.requests.length < 2 ^ 64 - 2) (hstep : n.step a = some m) :
    ∃ s', Transition.Reach Session.step (WholeCall discards) s s' ∧
      Conforms size maximum discards m s' := by
  cases a with
  | thread a fails =>
    simp only [Network.step] at hstep
    split at hstep
    · next hcond =>
      obtain ⟨system, hsystem, rfl⟩ := Option.map_eq_some_iff.mp hstep
      exact h.thread hsize hok hlt hcond.1 hcond.2 hsystem
    · cases hstep
  | handle =>
    obtain ⟨t, hhandle, rfl⟩ := Option.map_eq_some_iff.mp hstep
    have hwhole : WholeCall discards s .handle := .of_ne s rfl rfl fun _ h => by cases h
    refine h.server hwhole fun hends hsocket => ?_
    obtain ⟨rfl, hstep'⟩ := Session.step_handle hends hsocket hhandle
    refine ⟨s.handle, hstep', rfl, rfl, rfl, rfl, ?_⟩
    show { s.outside with server := ⟨s.outside.server.handled + 1, false, false⟩ } =
      { n.view.outside with server := ⟨n.view.outside.server.handled + 1, false, false⟩ }
    rw [hends]
  | emit responseType sequence bytes =>
    obtain ⟨t, hemit, rfl⟩ := Option.map_eq_some_iff.mp hstep
    have hwhole : WholeCall discards s (.emit responseType sequence bytes) :=
      .of_ne s rfl rfl fun _ h => by cases h
    refine h.server hwhole fun hends _ => ?_
    obtain ⟨rfl, hstep'⟩ := Session.step_emit hends hemit
    refine ⟨_, hstep', rfl, rfl, rfl, rfl, ?_⟩
    set p := n.view.packet responseType sequence bytes
    have hemit : ∀ o : Session, (o.emit p).outside =
        { o.outside with
          server := { o.outside.server with
            replied := o.outside.server.replied || p.isReply
            errored := o.outside.server.errored || p.isError }
          wire := o.outside.wire ++ [p] } := fun _ => rfl
    rw [hemit, hemit, hends]

/-- Requests are never forgotten. -/
theorem length_requests_le {a : Network.Action τ} (hbounded : n.system.Bounded)
    (hstep : n.step a = some m) :
    n.system.requests.length ≤ m.system.requests.length ∧ m.system.Bounded := by
  cases a with
  | thread a fails =>
    simp only [Network.step] at hstep
    split at hstep
    · obtain ⟨system, hsystem, rfl⟩ := Option.map_eq_some_iff.mp hstep
      have hfollows := System.follows_step hbounded hsystem
      exact ⟨hfollows.requests, hfollows.bounded hbounded⟩
    · cases hstep
  | handle =>
    obtain ⟨t, -, rfl⟩ := Option.map_eq_some_iff.mp hstep
    exact ⟨Nat.le_refl _, hbounded⟩
  | emit responseType sequence bytes =>
    obtain ⟨t, -, rfl⟩ := Option.map_eq_some_iff.mp hstep
    exact ⟨Nat.le_refl _, hbounded⟩

/-- A run that numbers no more requests than this never does. -/
theorem reach_of_length_lt {ok : Network τ → Network.Action τ → Prop}
    (h : Transition.Reach Network.step ok (Network.init size maximum) n) {bound : ℕ}
    (hlt : n.system.requests.length < bound) :
    Transition.Reach Network.step
      (fun m a => ok m a ∧ m.system.requests.length < bound) (Network.init size maximum) n := by
  have hboth : n.system.Bounded ∧ (n.system.requests.length < bound →
      Transition.Reach Network.step
        (fun m a => ok m a ∧ m.system.requests.length < bound) (Network.init size maximum) n) := by
    clear hlt
    induction h with
    | refl => exact ⟨fun _ => Nat.le_refl 0, fun _ => .refl _⟩
    | tail _ hok hstep ih =>
      obtain ⟨hbounded, hreach⟩ := ih
      obtain ⟨hle, hbounded'⟩ := length_requests_le hbounded hstep
      exact ⟨hbounded', fun hlt =>
        .tail (hreach (hle.trans_lt hlt)) ⟨hok, hle.trans_lt hlt⟩ hstep⟩
  exact hboth.2 hlt

/-- A session that has got as far, for every run. -/
theorem exists_conforms (hsize : size < 2 ^ 31)
    (h : Transition.Reach Network.step (Plain discards) (Network.init size maximum) n)
    (hlt : n.system.requests.length < 2 ^ 64 - 2) :
    ∃ s, Transition.Reach Session.step (WholeCall discards) (Session.init size maximum) s ∧
      Conforms size maximum discards n s :=
  (reach_of_length_lt h hlt).simulate
    (fun _ _ _ _ hconforms hok hstep => hconforms.step hsize hok.1 hok.2 hstep)
    (conforms_init size maximum discards)

/-! ### The result -/

/-- The session's requests, server and packets are those of the network, its input half is that of
the threads, its callers were handed the same in the same order, and its bytes are the same. -/
structure Serialised (n : Network τ) (s : Session) : Prop where
  outside : s.outside = n.outside
  inp : s.conn.inp = n.system.conn.inp.forget
  handed : s.log.filterMap Observation.handed = n.system.log.filterMap Entry.handed
  requests : s.requests.map Request.encoding = n.system.requests
  stream : s.stream = n.system.requests.flatten
  socket : n.system.socket <+: s.socket

omit [DecidableEq τ] [Fintype τ] in
theorem Conforms.serialised (h : Conforms size maximum discards n s)
    (halive : n.system.conn.hasError = false) : n.Serialised s := by
  obtain ⟨hends, phase, hheld, hs, hmirrors⟩ := h.alive halive
  refine ⟨hends, hmirrors.inp, ?_, hmirrors.requests, ?_, ?_⟩
  · rw [hmirrors.handed, List.append_nil]
  · have hqueued : s.conn.out.queue.take s.conn.out.queueLen = n.system.conn.out.queued := by
      rw [hmirrors.conn]
      rfl
    rw [Session.stream, hqueued, hmirrors.socket]
    exact hs.stream halive
  · rw [hmirrors.socket]
    exact List.prefix_append _ _

/-- **Threads do whole calls**: as long as the connection has not failed, whatever they and the
server have done is what whole calls do, one after the other. -/
theorem serialised_of_reach (hsize : size < 2 ^ 31)
    (h : Transition.Reach Network.step (Plain discards) (Network.init size maximum) n)
    (hlt : n.system.requests.length < 2 ^ 64 - 2) (halive : n.system.conn.hasError = false) :
    ∃ s, Transition.Reach Session.step (WholeCall discards) (Session.init size maximum) s ∧
      n.Serialised s := by
  obtain ⟨s, hreach, hconforms⟩ := exists_conforms hsize h hlt
  exact ⟨s, hreach, hconforms.serialised halive⟩

/-- These packets arrive, and everything can be written. -/
def answered (packets : List (Packet Stamp)) : Env (Fin 2) Stamp where
  pollin := !packets.isEmpty
  pollout := true
  recv := ⟨packets, none, false⟩
  writev := .wrote 4
  noMemory := fun _ => false
  order := [0, 1]
  complete := mem_range_two

/-- A step of a thread in which it numbers no request that fails. -/
def Action.ofThread {τ : Type} (a : System.Action τ Stamp) : Network.Action τ :=
  .thread a fun _ => false

/-- An error for the first request. -/
def firstError : Packet Stamp := ⟨xcbError, 1, ⟨1, []⟩⟩

/-- Thread 1 waits for an event. Thread 0 sends a request that fails, and flushes it; thread 1 reads
the error. -/
def oneError : List (Network.Action (Fin 2)) :=
  [.ofThread (.call 1 .waitForEvent), .ofThread (.run 1 (answered [])),
    .ofThread (.call 0 (.send (wordCall false))), .thread (.run 0 (answered [])) fun _ => true,
    .ofThread (.call 0 .flush), .ofThread (.run 0 (answered [])),
    .ofThread (.run 0 (answered [])), .handle, .emit xcbError 1 [],
    .ofThread (.run 1 (answered [firstError]))]

theorem exists_oneError : ∃ n : Network (Fin 2),
    oneError.foldlM Network.step (Network.init 16384 65535) = some n ∧
      n.system.requests.length = 1 ∧ n.system.conn.hasError = false ∧
        n.outside.reads = [firstError] ∧
          n.system.log.filterMap Entry.handed = [.event ⟨firstError, some 1⟩] := by
  have hrun : (oneError.foldlM Network.step (Network.init 16384 65535)).map (fun n =>
      (n.system.requests.length, n.system.conn.hasError, n.outside.reads,
        n.system.log.filterMap Entry.handed)) =
      some (1, false, [firstError], [.event ⟨firstError, some 1⟩]) := by
    decide +kernel
  obtain ⟨n, hn, heq⟩ := Option.map_eq_some_iff.mp hrun
  simp only [Prod.mk.injEq] at heq
  exact ⟨n, hn, heq.1, heq.2.1, heq.2.2.1, heq.2.2.2⟩

theorem plain_of_mem_oneError (n : Network (Fin 2)) :
    ∀ a ∈ oneError, Plain False n a := by
  have hsend : ∀ discards, Plain discards n
      (.ofThread (.call 0 (.send (wordCall false)))) := fun _ =>
    ⟨System.ordinary_wordCall False false, fun h => absurd h Bool.false_ne_true⟩
  intro a ha
  simp only [oneError, List.mem_cons, List.not_mem_nil, or_false] at ha
  rcases ha with rfl | rfl | rfl | rfl | rfl | rfl | rfl | rfl | rfl | rfl <;>
    first
    | exact hsend _
    | exact trivial
    | exact ⟨trivial, fun h => absurd h Bool.false_ne_true⟩

/-- The error of one thread's request, read by another thread. -/
theorem serialised_oneError : ∃ n : Network (Fin 2), ∃ s, n.outside.reads = [firstError] ∧
    Transition.Reach Session.step (WholeCall False) (Session.init 16384 65535) s ∧
      n.Serialised s := by
  obtain ⟨n, hrun, hlength, halive, hreads, -⟩ := exists_oneError
  have hreach : Transition.Reach _ (Plain False) _ n := .of_foldlM plain_of_mem_oneError hrun
  obtain ⟨s, hs⟩ := serialised_of_reach (by norm_num) hreach (by omega) halive
  exact ⟨n, s, hreads, hs⟩

end Network

end Xcb
