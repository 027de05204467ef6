import Xcb.Decided
import Xcb.ReaderRole
import Xcb.Words

/-!
# Waking the threads that have their answer

A thread that sleeps in `xcb_wait_for_reply` goes on when somebody signals it. `read_packet` does so
for the reader that its packet is for, and for no other. A thread that waits for an earlier request
has its answer too when the packet comes, and so has one that waits for a request whose error
becomes an event; they sleep until whoever polls happens to leave. Where no packet finds such a
thread, every thread that has its answer has been signalled.

## Main definitions

* `System.Awake` — no thread sleeps that has its answer
* `System.Told` — the threads that a packet decides are those that it signals
* `System.Announced`, `System.Announces` — the same for the packets of a step

## Main results

* `System.Awake.readPacket_iff` — one packet
* `System.awake_of_reach` — every run without such packets
-/

namespace Xcb

variable {τ β : Type}

/-! ### What other functions do to the answers -/

/-- Nothing was read, and at most a reply was collected or discarded. -/
structure XcbIn.Collects (c d : XcbIn τ β) : Prop where
  requestRead : d.requestRead = c.requestRead
  requestCompleted : d.requestCompleted = c.requestCompleted
  current : d.currentReply ≠ [] → c.currentReply ≠ []

namespace XcbIn.Collects

variable {c d : XcbIn τ β} {request : BitVec 32}

/-- No request is decided by that. -/
theorem decided (h : Collects c d) (hd : d.Decided request) : c.Decided request := by
  rw [XcbIn.decided_iff, h.requestRead, h.requestCompleted] at hd
  rw [XcbIn.decided_iff]
  rcases hd with hzero | hlt | ⟨hread, hcurrent⟩ | hcompleted
  · exact .inl hzero
  · exact .inr (.inl hlt)
  · exact .inr (.inr (.inl ⟨hread, h.current hcurrent⟩))
  · exact .inr (.inr (.inr hcompleted))

theorem refl (c : XcbIn τ β) : Collects c c := ⟨rfl, rfl, id⟩

theorem pollForReply (c : XcbIn τ β) (request : BitVec 32) :
    Collects c (c.pollForReply request).2 := by
  unfold XcbIn.pollForReply
  split
  · exact .refl c
  · split
    · split <;> exact ⟨rfl, rfl, id⟩
    · split
      · next hcurrent => exact ⟨rfl, rfl, fun _ => hcurrent.2⟩
      · split <;> exact .refl c

theorem discardReply (c : XcbIn τ β) (outRequest : BitVec 64) (request : BitVec 32) :
    Collects c (c.discardReply outRequest request) := by
  unfold XcbIn.discardReply
  split
  · exact ⟨rfl, rfl, id⟩
  · split
    · exact ⟨rfl, rfl, fun h => absurd rfl h⟩
    · exact ⟨rfl, rfl, id⟩

theorem getEvent (c : XcbIn τ β) : Collects c c.getEvent.2 := by
  rw [XcbIn.getEvent_snd]
  exact ⟨rfl, rfl, id⟩

theorem repliesDone (c : XcbIn τ β) (outRequest : BitVec 64) :
    Collects c (c.repliesDone outRequest) := by
  obtain ⟨pending, heq⟩ := c.repliesDone_eq outRequest
  rw [heq]
  exact ⟨rfl, rfl, id⟩

end XcbIn.Collects

/-- While the answer is not known, `poll_for_reply` changes nothing. -/
theorem XcbIn.pollForReply_of_none {c : XcbIn τ β} {request : BitVec 32}
    (h : (c.pollForReply request).1 = none) : (c.pollForReply request).2 = c := by
  unfold XcbIn.pollForReply at h ⊢
  split at h
  · cases h
  · next hzero =>
    rw [if_neg hzero]
    split at h
    · split at h <;> cases h
    · next hlt =>
      rw [if_neg hlt]
      split at h
      · next hcurrent =>
        obtain ⟨head, tail, hcons⟩ := List.exists_cons_of_ne_nil hcurrent.2
        rw [hcons] at h
        cases h
      · next hcurrent =>
        rw [if_neg hcurrent]
        split <;> rfl

/-- The request that the thread sleeps for. -/
def Pc.awaitsReply : Pc → Option (BitVec 32)
  | .awaitReader (.reply request) => some request
  | _ => none

theorem Pc.eq_of_awaitsReply {pc : Pc} {request : BitVec 32} (h : pc.awaitsReply = some request) :
    pc = .awaitReader (.reply request) := by
  cases pc with
  | awaitReader waiter =>
    cases waiter with
    | reply request' => rw [Option.some_inj.mp h]
    | event => cases h
  | _ => cases h

/-- The request of the `xcb_wait_for_reply` that flushes. -/
def Flusher.waitsFor : Flusher → Option (BitVec 32)
  | .waitForReply request => some request
  | _ => none

def Sender.waitsFor : Sender → Option (BitVec 32)
  | .flusher f => f.waitsFor
  | _ => none

/-- The request of the thread's `xcb_wait_for_reply`. -/
def Pc.waitsFor : Pc → Option (BitVec 32)
  | .lock (.waitForReply request) => some request
  | .awaitWriter sender _ | .pollOut _ sender _ => sender.waitsFor
  | .awaitWritten f _ _ => f.waitsFor
  | .awaitReader waiter | .pollIn _ waiter => waiter.waitsFor
  | _ => none

namespace System

variable [DecidableEq τ] {s u : System τ β} {t : τ} {e : Env τ β}

/-! ### What a packet does to the answers -/

omit [DecidableEq τ] in
/-- A thread is blocked in `xcb_wait_for_reply`, and no signal has reached it yet. -/
def Blocked (s : System τ β) (v : τ) (request : BitVec 32) : Prop :=
  s.threads v = .awaitReader (.reply request) ∧ s.signalled v = false

omit [DecidableEq τ] in
/-- No thread is blocked that has its answer. -/
def Awake (s : System τ β) : Prop :=
  ∀ v request, s.threads v = .awaitReader (.reply request) → s.conn.inp.Decided request →
    s.signalled v = true

omit [DecidableEq τ] in
/-- When the packet comes, nobody is blocked for a request that it overtakes. It signals those that
are blocked for its own and get their answer: there is one of them, the first in the list, and the
packet is `kept`. -/
def Told (s : System τ β) (p : Packet β) (kept : Prop) : Prop :=
  ∀ v request, s.Blocked v request → p.isKeymapNotify = false →
    ¬ s.conn.inp.Overtakes p request ∧
      (request = low32 (widenSequence s.conn.inp.requestRead p.sequence) →
        (p.isError = true → kept) ∧
          (kept → (s.conn.inp.readers.find? fun r => r.request == request).map Reader.data =
            some v))

omit [DecidableEq τ] in
theorem Awake.not_decided (h : s.Awake) {v : τ} {request : BitVec 32}
    (hblocked : s.Blocked v request) : ¬ s.conn.inp.Decided request := by
  intro hdecided
  have hsignalled := h v request hblocked.1 hdecided
  rw [hblocked.2] at hsignalled
  cases hsignalled

omit [DecidableEq τ] in
theorem Queued.of_reads (h : s.Queued) (hreads : Reads s u) : u.Queued := by
  rw [Queued, hreads.readers, hreads.threads]
  exact h

omit [DecidableEq τ] in
theorem Awake.congr (h : s.Awake) (hinp : XcbIn.Collects s.conn.inp u.conn.inp)
    (hthreads : ∀ v request, u.threads v = .awaitReader (.reply request) →
      s.threads v = .awaitReader (.reply request))
    (hsignalled : ∀ v, s.signalled v = true → u.signalled v = true) : u.Awake :=
  fun v request hv hdecided =>
    hsignalled v (h v request (hthreads v request hv) (hinp.decided hdecided))

/-- A thread that is blocked in `xcb_wait_for_reply` wakes up when its own condition variable is
signalled. -/
theorem signalled_signal_iff {v : τ} {request : BitVec 32} (hblocked : s.Blocked v request)
    (order : List τ) (condition : Signal τ) :
    (s.signal order condition).signalled v = true ↔ condition = .reader v := by
  obtain ⟨hv, hnot⟩ := hblocked
  have hupdate : ∀ w, Function.update s.signalled w true v = true ↔ w = v := by
    intro w
    by_cases hvw : v = w
    · rw [hvw, Function.update_self]
      exact iff_of_true rfl rfl
    · rw [Function.update_of_ne hvw, hnot]
      exact iff_of_false Bool.false_ne_true (Ne.symm hvw)
  cases condition with
  | reader w =>
    simp only [signal, Signal.reader.injEq]
    split
    · exact hupdate w
    · next hw =>
      rw [hnot]
      refine iff_of_false Bool.false_ne_true ?_
      rintro rfl
      exact hw request hv
  | event =>
    simp only [signal]
    refine iff_of_false ?_ fun hreader => by cases hreader
    split
    · next w hfind =>
      have hw := List.find?_some hfind
      rw [hupdate]
      rintro rfl
      rw [awaitsEvent, hv] at hw
      cases hw
    · rw [hnot]
      exact Bool.false_ne_true

theorem inp_readPacket (s : System τ β) (e : Env τ β) (p : Packet β) :
    (s.readPacket e p).conn.inp = (s.conn.inp.readPacket p).1 := by
  rw [readPacket]
  split
  · rw [conn_signal]
    rfl
  · rfl

theorem signalled_readPacket_iff {v : τ} {request : BitVec 32} (hblocked : s.Blocked v request)
    (e : Env τ β) (p : Packet β) :
    (s.readPacket e p).signalled v = true ↔
      (s.conn.inp.readPacket p).2 = some (.reader v) := by
  rw [readPacket]
  split
  · next condition hcondition =>
    have hsame : (s.setInp (s.conn.inp.readPacket p).1).Blocked v request := hblocked
    rw [signalled_signal_iff hsame, hcondition, Option.some_inj]
  · next hnone =>
    rw [hnone]
    exact iff_of_false (fun h => Bool.false_ne_true (hblocked.2.symm.trans h))
      (Option.some_ne_none _).symm

/-- **One packet** leaves no thread asleep that has its answer exactly when it signals every thread
that it decides. -/
theorem Awake.readPacket_iff (h : s.Awake) (hqueued : s.Queued) (e : Env τ β)
    (p : Packet β) : (s.readPacket e p).Awake ↔ s.Told p (s.conn.inp.Keeps p) := by
  have hreads := reads_readPacket s e p
  constructor
  · intro hawake v request hblocked hkeymap
    have hdecides := XcbIn.decided_readPacket hkeymap (h.not_decided hblocked)
    have hthread : (s.readPacket e p).threads v = .awaitReader (.reply request) := by
      rw [hreads.threads, hblocked.1]
    -- if the packet decides its request, the signal is for it
    have hsignal : (s.readPacket e p).conn.inp.Decided request → s.conn.inp.Keeps p ∧
        (s.conn.inp.readers.find? fun reader => reader.request ==
          low32 (widenSequence s.conn.inp.requestRead p.sequence)).map Reader.data = some v := by
      intro hdecided
      have hsignalled := hawake v request hthread hdecided
      rw [signalled_readPacket_iff hblocked e p] at hsignalled
      exact (XcbIn.readPacket_snd hqueued.sorted hkeymap v).mp hsignalled
    rw [inp_readPacket, hdecides] at hsignal
    refine ⟨?_, fun hsame => ⟨fun herror => ?_, fun hkept => ?_⟩⟩
    · intro hovertakes
      obtain ⟨-, hfind⟩ := hsignal (.inl hovertakes)
      -- the reader that is signalled waits for the request of the packet
      obtain ⟨reader, hreader, hdata⟩ := Option.map_eq_some_iff.mp hfind
      have hnode := (hqueued.mem_iff reader).mp (List.mem_of_find?_eq_some hreader)
      have hrequest := List.find?_some hreader
      rw [beq_iff_eq] at hrequest
      rw [hdata, hblocked.1] at hnode
      rw [← Option.some_inj.mp hnode] at hrequest
      rw [hrequest] at hovertakes
      exact XcbIn.not_overtakes_own hovertakes
    · exact (hsignal (.inr ⟨hsame, .inl herror⟩)).1
    · rw [hsame]
      exact (hsignal (.inr ⟨hsame, .inr hkept⟩)).2
  · intro htold v request hv hdecided
    rw [hreads.threads] at hv
    cases hsignalled : s.signalled v with
    | true => exact signalled_readPacket s e p hsignalled
    | false =>
      have hblocked : s.Blocked v request := ⟨hv, hsignalled⟩
      rw [inp_readPacket] at hdecided
      cases hkeymap : p.isKeymapNotify with
      | true =>
        rw [XcbIn.decided_keymapNotify hkeymap] at hdecided
        exact absurd hdecided (h.not_decided hblocked)
      | false =>
        obtain ⟨hlater, hown⟩ := htold v request hblocked hkeymap
        rw [XcbIn.decided_readPacket hkeymap (h.not_decided hblocked)] at hdecided
        rcases hdecided with hovertakes | ⟨hsame, hkind⟩
        · exact absurd hovertakes hlater
        · have hkept : s.conn.inp.Keeps p := hkind.elim (hown hsame).1 id
          rw [signalled_readPacket_iff hblocked e p,
            XcbIn.readPacket_snd hqueued.sorted hkeymap, ← hsame]
          exact ⟨hkept, (hown hsame).2 hkept⟩

omit [DecidableEq τ] in
/-- A packet that could not be stored wakes nobody. -/
theorem Awake.abort (h : s.Awake) {p : Packet β} (htold : s.Told p False) :
    ((s.setInp (s.conn.inp.advance p)).shutdown).Awake := by
  intro v request hv hdecided
  cases hsignalled : s.signalled v with
  | true => exact hsignalled
  | false =>
    have hblocked : s.Blocked v request := ⟨hv, hsignalled⟩
    have hnot := h.not_decided hblocked
    change (s.conn.inp.advance p).Decided request at hdecided
    cases hkeymap : p.isKeymapNotify with
    | true =>
      rw [s.conn.inp.advance_of_keymapNotify p hkeymap] at hdecided
      exact absurd hdecided hnot
    | false =>
      obtain ⟨hlater, hown⟩ := htold v request hblocked hkeymap
      rw [XcbIn.decided_advance hkeymap hnot] at hdecided
      rcases hdecided with hovertakes | ⟨hsame, herror⟩
      · exact absurd hovertakes hlater
      · exact ((hown hsame).1 herror).elim

/-! ### The packets of a step -/

/-- `read_packet`, on one packet after the other. -/
def readPackets (s : System τ β) (e : Env τ β) (packets : List (Packet β)) : System τ β :=
  packets.foldl (fun s p => s.readPacket e p) s

/-- Each of these packets signals every blocked thread that it decides. -/
def Announced (s : System τ β) (e : Env τ β) (packets : List (Packet β)) : Prop :=
  ∀ before p after, packets = before ++ p :: after →
    (s.readPackets e before).Told p ((s.readPackets e before).conn.inp.Keeps p)

theorem reads_readPackets (s : System τ β) (e : Env τ β) (packets : List (Packet β)) :
    Reads s (s.readPackets e packets) := by
  induction packets generalizing s with
  | nil => exact .refl s
  | cons p packets ih => exact (reads_readPacket s e p).trans (ih (s.readPacket e p))

theorem Awake.readPacket (h : s.Awake) (hqueued : s.Queued) {p : Packet β}
    (htold : s.Told p (s.conn.inp.Keeps p)) : (s.readPacket e p).Awake :=
  (h.readPacket_iff hqueued e p).mpr htold

theorem Awake.readPackets (h : s.Awake) (hqueued : s.Queued) {packets : List (Packet β)}
    (htold : s.Announced e packets) : (s.readPackets e packets).Awake := by
  induction packets generalizing s with
  | nil => exact h
  | cons p packets ih =>
    refine ih (h.readPacket hqueued (htold [] p packets rfl))
      (hqueued.of_reads (reads_readPacket s e p)) ?_
    rintro before q after rfl
    exact htold (p :: before) q after rfl

/-- The packets that `_xcb_in_read` finds, and the one that it fails on. -/
structure Heard (s : System τ β) (e : Env τ β) : Prop where
  packets : s.Announced e e.recv.packets
  aborted : ∀ p, e.recv.aborted = some p → (s.readPackets e e.recv.packets).Told p False

theorem Awake.inRead (h : s.Awake) (hqueued : s.Queued) (hheard : s.Heard e) :
    (s.inRead e).1.Awake := by
  have hpackets := h.readPackets hqueued hheard.packets
  have hclose : ∀ u : System τ β, u.Awake →
      (if e.recv.closed then (u.shutdown, false) else (u, true)).1.Awake := by
    intro u hu
    split
    · exact hu.congr (.refl _) (fun _ _ => id) fun _ => id
    · exact hu
  unfold System.inRead
  cases haborted : e.recv.aborted with
  | none => exact hclose _ hpackets
  | some p => exact hclose _ (hpackets.abort (hheard.aborted p haborted))

/-! ### Reading -/

section reading

variable {request : BitVec 32} {waiter : Waiter}

omit [DecidableEq τ] in
theorem Awake.setInp (h : s.Awake) {inp : XcbIn τ β} (hinp : XcbIn.Collects s.conn.inp inp) :
    (s.setInp inp).Awake :=
  h.congr hinp (fun _ _ => id) fun _ => id

omit [DecidableEq τ] in
theorem Awake.setReading (h : s.Awake) (reading : ℕ) :
    (s.setInp { s.conn.inp with reading := reading }).Awake :=
  h.setInp ⟨rfl, rfl, id⟩

omit [DecidableEq τ] in
theorem Awake.setReaders (h : s.Awake) (readers : List (Reader τ)) :
    (s.setInp { s.conn.inp with readers := readers }).Awake :=
  h.setInp ⟨rfl, rfl, id⟩

omit [DecidableEq τ] in
/-- The input half does not change. -/
theorem Awake.same (h : s.Awake) (hinp : u.conn.inp = s.conn.inp)
    (hthreads : u.threads = s.threads) (hsignalled : u.signalled = s.signalled) : u.Awake := by
  refine h.congr (hinp ▸ .refl s.conn.inp) (fun v request hv => ?_) fun v hv => ?_
  · rwa [hthreads] at hv
  · rw [hsignalled, hv]

/-- A thread stops running where it does not wait for a reply. -/
theorem Awake.setPc (h : s.Awake) {pc : Pc} (hpc : pc.awaitsReply = none) :
    (s.setPc t pc).Awake := by
  refine h.congr (.refl s.conn.inp) (fun v request hv => ?_) fun _ => id
  by_cases hvt : v = t
  · rw [hvt, threads_setPc_self] at hv
    rw [hv] at hpc
    cases hpc
  · rwa [threads_setPc_of_ne s hvt] at hv

theorem Awake.leave (h : s.Awake) (entry : Entry β) : (s.leave t entry).Awake :=
  (h.setPc rfl).same rfl rfl rfl

theorem Awake.wakeUpNextReader (h : s.Awake) (e : Env τ β) :
    (s.wakeUpNextReader e).Awake := by
  refine h.congr ?_ (fun v request hv => ?_) fun v => signalled_signal s _ _
  · rw [System.wakeUpNextReader, conn_signal]
    exact .refl s.conn.inp
  · rwa [(reads_wakeUpNextReader s e).threads] at hv

/-- A thread only begins to wait when its answer is not known. -/
theorem Awake.waitRead (h : s.Awake)
    (hnot : ∀ request, waiter = .reply request → ¬ s.conn.inp.Decided request) :
    (s.waitRead t waiter).Awake := by
  rw [System.waitRead]
  split
  · intro v request hv hdecided
    by_cases hvt : v = t
    · have hpc : (s.setPc t (.awaitReader waiter)).threads v = .awaitReader (.reply request) := hv
      rw [hvt, threads_setPc_self, Pc.awaitReader.injEq] at hpc
      exact absurd hdecided (hnot request hpc)
    · have hpc : (s.setPc t (.awaitReader waiter)).threads v = .awaitReader (.reply request) := hv
      rw [threads_setPc_of_ne s hvt] at hpc
      exact (Function.update_of_ne hvt false s.signalled).trans (h v request hpc hdecided)
  · exact (h.setReading _).setPc rfl

theorem Awake.leaveReply (h : s.Awake) (reply : Option (Buffer β)) :
    (s.leaveReply e t request reply).Awake :=
  ((h.setReaders _).wakeUpNextReader e).leave _

theorem Awake.waitReply (h : s.Awake) : (s.waitReply e t request).Awake := by
  have hpoll := h.setInp (.pollForReply s.conn.inp request)
  rw [System.waitReply]
  split
  · exact hpoll.leaveReply _
  · next hnone =>
    refine hpoll.waitRead fun request' heq => ?_
    cases heq
    change ¬ (s.conn.inp.pollForReply request).2.Decided request
    rw [XcbIn.pollForReply_of_none hnone, XcbIn.Decided, hnone]
    exact Bool.false_ne_true

theorem Awake.startReply (h : s.Awake) : (s.startReply e t request).Awake :=
  (h.setReaders _).waitReply

theorem Awake.leaveEvent (h : s.Awake) (event : Option (Buffer β)) :
    (s.leaveEvent e t event).Awake :=
  (h.wakeUpNextReader e).leave _

theorem Awake.waitEvent (h : s.Awake) : (s.waitEvent e t).Awake := by
  have hget := h.setInp (.getEvent s.conn.inp)
  rw [System.waitEvent]
  split
  · exact hget.leaveEvent _
  · exact hget.waitRead fun _ hwaiter => by cases hwaiter

theorem Awake.afterRead (h : s.Awake) (waiter : Waiter) (ret : Bool) :
    (s.afterRead e t waiter ret).Awake := by
  cases waiter <;> cases ret
  · exact h.leaveReply none
  · exact h.waitReply
  · exact h.leaveEvent none
  · exact h.waitEvent

theorem Awake.pollRead (h : s.Awake) (hqueued : s.Queued) {failed : Bool}
    (hheard : failed = false → e.pollin = true → s.Heard e) :
    (s.pollRead e failed).1.Awake := by
  rw [System.pollRead]
  split
  · exact h
  · next hfailed =>
    split
    · next hpollin => exact h.inRead hqueued (hheard (Bool.not_eq_true _ ▸ hfailed) hpollin)
    · exact h

theorem Awake.finishRead (h : s.Awake) (hqueued : s.Queued) {failed : Bool}
    (hheard : failed = false → e.pollin = true → s.Heard e) :
    (s.finishRead e t failed waiter).Awake :=
  (((h.pollRead hqueued hheard).setReading _).setPc rfl).afterRead waiter _

theorem Awake.pollEvent (h : s.Awake) (hqueued : s.Queued)
    (hheard : s.conn.inp.events = [] → s.Heard e) : (s.pollEvent e t).Awake := by
  rw [System.pollEvent]
  split
  · exact (h.setInp (.getEvent s.conn.inp)).leave _
  · next hnone =>
    have hevents : s.conn.inp.events = [] := by
      cases hevents : s.conn.inp.events with
      | nil => rfl
      | cons event next =>
        rw [XcbIn.getEvent, hevents] at hnone
        cases hnone
    have hsame : s.setInp s.conn.inp.getEvent.2 = s := by
      rw [XcbIn.getEvent, hevents]
      rfl
    have hread := h.inRead hqueued (hheard hevents)
    rw [hsame]
    dsimp only
    split
    · exact (hread.setInp (.getEvent _)).leave _
    · exact hread.leave _

end reading

/-! ### Writing -/

section writing

variable {f : Flusher} {sender : Sender}

omit [DecidableEq τ] in
theorem Awake.setOut (h : s.Awake) (out : XcbOut) : (s.setOut out).Awake :=
  h.same rfl rfl rfl

omit [DecidableEq τ] in
theorem Awake.note (h : s.Awake) (entry : Entry β) : (s.note entry).Awake :=
  h.same rfl rfl rfl

omit [DecidableEq τ] in
theorem Awake.takeSocket (h : s.Awake) (flags : Flags) : (s.takeSocket e flags).Awake := by
  refine h.congr ?_ (fun _ _ => id) fun _ => id
  have hhand : XcbIn.Collects s.conn.inp (s.conn.handOver s.handoffs flags).inp := by
    rw [XcbConnection.handOver]
    split <;> exact ⟨rfl, rfl, id⟩
  exact ⟨hhand.requestRead, hhand.requestCompleted, hhand.current⟩

theorem Awake.afterFlush (h : s.Awake) (f : Flusher) (ret : Bool) :
    (s.afterFlush e t f ret).Awake := by
  cases f <;> cases ret
  · exact h.leave _
  · exact h.leave _
  · exact h.leave _
  · exact (h.takeSocket _).leave _
  · exact (h.wakeUpNextReader e).leave _
  · exact h.startReply

theorem Awake.afterSend (h : s.Awake) (sender : Sender) (ret : Bool) :
    (s.afterSend e t sender ret).Awake := by
  cases sender with
  | send number last =>
    cases ret with
    | true => exact h.leave _
    | false =>
      have hshutdown : s.shutdown.Awake := h.same rfl rfl rfl
      exact hshutdown.leave _
  | writev last => exact h.leave _
  | flusher f => exact h.afterFlush f ret

theorem Awake.waitWrite (h : s.Awake) (sender : Sender) (vector : List Iovec) :
    (s.waitWrite t sender vector).Awake := by
  rw [System.waitWrite]
  split
  · exact h.setPc rfl
  · exact ((h.setReading _).setOut _).setPc rfl

theorem Awake.outSend (h : s.Awake) (sender : Sender) (ret : Bool) (vector : List Iovec) :
    (s.outSend e t sender ret vector).Awake := by
  rw [System.outSend]
  split
  · exact h.waitWrite sender vector
  · exact ((h.setOut _).wakeUpNextReader e).afterSend sender ret

omit [DecidableEq τ] in
theorem Awake.writeVec (h : s.Awake) (vector : List Iovec) (w : WriteResult) :
    (s.writeVec vector w).1.Awake := by
  cases w <;> exact h.same rfl rfl rfl

theorem Awake.finishWrite (h : s.Awake) (hqueued : s.Queued) {failed : Bool}
    (hheard : failed = false → e.pollin = true → s.Heard e) (vector : List Iovec) :
    (s.finishWrite e t failed sender vector).Awake := by
  have hread := h.pollRead hqueued hheard
  have hwrite : (s.pollWrite e failed vector).1.Awake := by
    rw [System.pollWrite]
    split
    · exact hread.writeVec vector _
    · exact hread
  exact Awake.outSend (((hwrite.setOut _).setReading _).setPc rfl) sender _ _

theorem Awake.awaitWritten (h : s.Awake) (f : Flusher) (request : BitVec 64) (n : ℕ) :
    (s.awaitWritten e t f request n).Awake := by
  rw [System.awaitWritten]
  split
  · exact h.setPc rfl
  · exact (h.note _).afterFlush f true

theorem Awake.flushTo (h : s.Awake) (f : Flusher) (request : BitVec 64) :
    (s.flushTo e t f request).Awake := by
  rw [System.flushTo]
  split
  · exact (h.note _).afterFlush f true
  · split
    · exact Awake.outSend ((h.note _).setOut _) (.flusher f) true _
    · exact (h.note _).awaitWritten f request _

theorem Awake.sendRequest (h : s.Awake) (req : PreparedRequest) :
    (s.sendRequest e t req).Awake := by
  have hnumber : ((s.note (.numbered s.conn.out.writing
      s.conn.out.returnSocket.isSome)).numberRequest e req).Awake := by
    refine h.congr ?_ (fun _ _ => id) fun _ => id
    have hinp : XcbIn.Collects s.conn.inp (s.conn.numberRequest req).1.inp := by
      rw [numberRequest_fst]
      exact ⟨rfl, rfl, id⟩
    exact ⟨hinp.requestRead, hinp.requestCompleted, hinp.current⟩
  rw [System.sendRequest, System.writeBlock]
  split
  · exact (hnumber.setOut _).leave _
  · exact Awake.outSend (hnumber.setOut _) _ true _

theorem Awake.afterSocket (h : s.Awake) (taker : Taker) :
    (s.afterSocket e t taker).Awake := by
  cases taker with
  | send req => exact h.sendRequest req
  | takeSocket flags => exact h.flushTo _ _

theorem Awake.getSocketBack (h : s.Awake) (taker : Taker) :
    (s.getSocketBack e t taker).Awake := by
  rw [System.getSocketBack]
  split
  · exact h.afterSocket taker
  · split
    · exact h.setPc rfl
    · exact ((h.setOut _).note _).setPc rfl

omit [DecidableEq τ] in
theorem Awake.endCallback (h : s.Awake) : s.endCallback.Awake :=
  ((h.note _).setInp (.repliesDone s.conn.inp _)).setOut _

theorem Awake.awaitTurn (h : s.Awake) (req : PreparedRequest) :
    (s.awaitTurn e t req).Awake := by
  rw [System.awaitTurn]
  split
  · exact h.setPc rfl
  · exact h.getSocketBack _

theorem Awake.writev (h : s.Awake) (vector requests : List (List UInt8)) :
    (s.writev e t vector requests).Awake := by
  have hnumber : (s.numberOwner requests).Awake := h.same rfl rfl rfl
  exact Awake.outSend hnumber _ true _

end writing

/-! ### Steps -/

theorem Awake.start (h : s.Awake) (hqueued : s.Queued) {call : Call PreparedRequest}
    (hheard : call = .pollForEvent → s.conn.inp.events = [] → s.Heard e) :
    (s.start e t call).Awake := by
  cases call with
  | send req => exact h.awaitTurn req
  | flush => exact h.flushTo _ _
  | takeSocket flags => exact h.getSocketBack _
  | writev vector requests => exact h.writev vector requests
  | waitForReply request =>
    rw [System.start]
    split
    · exact h.startReply
    · exact h.flushTo _ _
  | pollForReply request => exact (h.setInp (.pollForReply s.conn.inp request)).leave _
  | discardReply request =>
    exact (h.setInp (.discardReply s.conn.inp s.conn.out.request request)).leave _
  | waitForEvent => exact h.waitEvent
  | pollForEvent => exact h.pollEvent hqueued (hheard rfl)

theorem Awake.enter (h : s.Awake) (call : Call SendCall) : (s.enter t call).Awake := by
  cases call with
  | send call =>
    rw [System.enter]
    split
    · exact h.setPc rfl
    · exact h.same rfl rfl rfl
  | discardReply request =>
    rw [System.enter]
    split
    · exact h.note _
    · exact h.setPc rfl
  | _ => exact h.setPc rfl

theorem Awake.call (h : s.Awake) {call : Call SendCall} (hcall : s.call t call = some u) :
    u.Awake := by
  rw [System.call] at hcall
  split at hcall
  · split at hcall
    · split at hcall
      · cases hcall
        cases call <;> exact h.note _
      · cases hcall
        exact h.enter call
    · cases hcall
  · cases hcall

theorem Awake.pollFails (h : s.Awake) (hfails : s.pollFails t = some u) : u.Awake := by
  have hshutdown : s.shutdown.Awake := h.same rfl rfl rfl
  rw [System.pollFails] at hfails
  split at hfails
  · cases hfails
    exact hshutdown.setPc rfl
  · cases hfails
    exact hshutdown.setPc rfl
  · cases hfails

/-- The state in which the thread calls `_xcb_in_read`, if it does. -/
def readsFrom (s : System τ β) (t : τ) (e : Env τ β) : Option (System τ β) :=
  match s.threads t with
  | .pollIn failed _ | .pollOut failed _ _ =>
    if failed = false ∧ e.pollin = true then some s else none
  | .lock .pollForEvent => if s.conn.inp.events.isEmpty then some (s.setPc t .idle) else none
  | _ => none

/-- The packets that a step reads signal all blocked threads that they decide. -/
def Announces (s : System τ β) : Action τ β → Prop
  | .run t e => ∀ u, s.readsFrom t e = some u → u.Heard e
  | _ => True

theorem awake_readsFrom (h : s.Awake) (hqueued : s.Queued)
    (hreads : s.readsFrom t e = some u) : u.Awake ∧ u.Queued := by
  have hlisted := hqueued.listed t
  rw [readsFrom] at hreads
  split at hreads
  · split at hreads <;> cases hreads
    exact ⟨h, hqueued⟩
  · split at hreads <;> cases hreads
    exact ⟨h, hqueued⟩
  · next heq =>
    rw [heq] at hlisted
    split at hreads <;> cases hreads
    exact ⟨h.setPc rfl, hlisted.setPc rfl⟩
  · cases hreads

variable [Fintype τ]

theorem Awake.run (h : s.Awake) (hqueued : s.Queued) (hok : s.Announces (.run t e))
    (hrun : s.run t e = some u) : u.Awake := by
  have hidle : (s.setPc t .idle).Awake := h.setPc rfl
  rw [Announces, readsFrom] at hok
  rw [System.run] at hrun
  split at hrun
  · cases hrun
  · next call heq =>
    cases hrun
    have hlisted := hqueued.listed t
    rw [heq] at hlisted hok
    refine hidle.start (hlisted.setPc rfl) ?_
    rintro rfl hevents
    exact hok _ (if_pos (List.isEmpty_iff.mpr hevents))
  · cases hrun
    exact hidle.awaitTurn _
  · cases hrun
    exact hidle.getSocketBack _
  · split at hrun <;> cases hrun
    exact Awake.afterSocket (h.endCallback.setPc rfl) _
  · cases hrun
    exact hidle.outSend _ true _
  · next heq =>
    rw [heq] at hok
    split at hrun <;> cases hrun
    exact h.finishWrite hqueued (fun hfailed hpollin => hok s (if_pos ⟨hfailed, hpollin⟩)) _
  · cases hrun
    exact hidle.awaitWritten _ _ _
  · cases hrun
    exact hidle.afterRead _ true
  · next heq =>
    rw [heq] at hok
    cases hrun
    exact h.finishRead hqueued fun hfailed hpollin => hok s (if_pos ⟨hfailed, hpollin⟩)

theorem Awake.step (h : s.Awake) (hqueued : s.Queued) {a : Action τ β}
    (hok : s.Announces a) (hstep : s.step a = some u) : u.Awake := by
  cases a with
  | call t call => exact h.call hstep
  | pollFails t => exact h.pollFails hstep
  | run t e => exact h.run hqueued hok hstep

/-! ### The result -/

/-- **No thread sleeps that has its answer**, as long as the packets signal all threads that they
decide; and when the first packet comes that does not, one does. -/
theorem awake_of_reach {size : ℕ} {maximum : BitVec 16}
    (h : Transition.Reach step Announces (init size maximum) s) :
    s.Awake ∧ ∀ t e u, s.readsFrom t e = some u → ∀ before p after,
      e.recv.packets = before ++ p :: after → u.Announced e before →
        ((u.readPackets e (before ++ [p])).Awake ↔
          (u.readPackets e before).Told p ((u.readPackets e before).conn.inp.Keeps p)) := by
  have hinit : (init size maximum : System τ β).Awake := fun v request hv _ => by cases hv
  have hboth : s.Queued ∧ s.Awake :=
    h.invariant (P := fun s => s.Queued ∧ s.Awake)
      (fun _ _ _ h hok hstep => ⟨h.1.step hstep, h.2.step h.1 hok hstep⟩)
      ⟨queued_init size maximum, hinit⟩
  refine ⟨hboth.2, fun t e u hreads before p after _ htold => ?_⟩
  obtain ⟨hawake, hqueued⟩ := awake_readsFrom hboth.2 hboth.1 hreads
  have hlast : u.readPackets e (before ++ [p]) = (u.readPackets e before).readPacket e p := by
    rw [readPackets, List.foldl_append]
    rfl
  rw [hlast]
  exact (hawake.readPackets hqueued htold).readPacket_iff
    (hqueued.of_reads (reads_readPackets u e before)) e p

/-! ### Two threads and a server -/

/-- Everything in the queue can be written, and these packets arrive. -/
def answers (packets : List (Packet Unit)) : Env (Fin 3) Unit where
  pollin := !packets.isEmpty
  pollout := true
  recv := ⟨packets, none, false⟩
  writev := .wrote 8
  noMemory := fun _ => false
  order := [0, 1, 2]
  complete := mem_range_three

omit [Fintype τ] in
theorem announced_nil (s : System τ β) (e : Env τ β) : s.Announced e [] :=
  fun before p after heq =>
    absurd heq.symm (List.append_ne_nil_of_right_ne_nil before (List.cons_ne_nil p after))

/-- Thread 0 polls for an event, and thread 1 waits for a reply. It has been signalled when the
reply comes. -/
theorem awake_reply :
    ∃ s b : System (Fin 3) Unit, s.readsFrom 0 (answers [⟨1, 1, ()⟩]) = some b ∧
      (b.readPacket (answers [⟨1, 1, ()⟩]) ⟨1, 1, ()⟩).signalled 1 = true ∧
        (b.readPacket (answers [⟨1, 1, ()⟩]) ⟨1, 1, ()⟩).Awake := by
  set e := answers [⟨1, 1, ()⟩]
  have hrun : (([.call 0 .waitForEvent, .run 0 (answers []), .call 1 (.waitForReply 1),
      .run 1 (answers [])].foldlM System.step (init 16384 65535)).bind fun s =>
        (s.readsFrom 0 e).map fun b =>
          decide (∀ v, (b.threads v).awaitsReply = if v = 1 then some 1 else none) &&
            decide (b.conn.inp.requestRead = 0) && decide (b.conn.inp.readers = [⟨1, 1⟩]) &&
            (b.readPacket e ⟨1, 1, ()⟩).signalled 1) = some true := by
    decide +kernel
  obtain ⟨s, hs, hrest⟩ := Option.bind_eq_some_iff.mp hrun
  obtain ⟨b, hb, hall⟩ := Option.map_eq_some_iff.mp hrest
  simp only [Bool.and_eq_true, decide_eq_true_eq] at hall
  obtain ⟨⟨⟨hwaits, hread⟩, hreaders⟩, hsignalled⟩ := hall
  have hnil : ∀ v : System (Fin 3) Unit, v.Heard (answers []) :=
    fun v => ⟨announced_nil v _, nofun⟩
  have hreach : Transition.Reach System.step Announces (init 16384 65535) s := by
    refine .of_foldlM (fun v a ha => ?_) hs
    simp only [List.mem_cons, List.not_mem_nil, or_false] at ha
    rcases ha with rfl | rfl | rfl | rfl
    · trivial
    · exact fun u _ => hnil u
    · trivial
    · exact fun u _ => hnil u
  refine ⟨s, b, hb, hsignalled, ?_⟩
  refine ((awake_of_reach hreach).2 0 e b hb [] ⟨1, 1, ()⟩ [] rfl ?_).mpr ?_
  · exact announced_nil b e
  · intro v request hblocked _
    have hv := hwaits v
    rw [show b.threads v = _ from hblocked.1] at hv
    by_cases hone : v = 1
    · rw [if_pos hone] at hv
      cases hv
      change ¬ b.conn.inp.Overtakes ⟨1, 1, ()⟩ 1 ∧
        (1 = low32 (widenSequence b.conn.inp.requestRead 1) → (false = true → _) ∧
          (_ → (b.conn.inp.readers.find? _).map Reader.data = some v))
      rw [XcbIn.Overtakes, hread, hreaders, hone]
      exact ⟨by decide, fun _ => ⟨fun herror => absurd herror (by decide), fun _ => rfl⟩⟩
    · rw [if_neg hone] at hv
      cases hv

/-! ### A void request that succeeds -/

omit [DecidableEq τ] [Fintype τ] in
/-- A thread may call `xcb_wait_for_reply` for a request that lies in a window with those of the
threads that are inside that call. -/
def Windowed (s : System τ β) : Action τ β → Prop
  | .call _ (.waitForReply request) => ∃ base, Serial.offset base request < 2 ^ 31 ∧
      ∀ v request', (s.threads v).waitsFor = some request' → Serial.offset base request' < 2 ^ 31
  | _ => True

/-- A checked request of one word, without a reply. -/
def checkedCall : SendCall :=
  { wordCall true with
    flags := requestChecked
    header_le := by simp [wordCall, Part.len, Part.memory]
    pad_le := by simp [wordCall]
    aligned := by simp [wordCall, Part.len, Part.memory] }

/-- Thread 0 polls for an event. Thread 1 sends a checked request without a reply, thread 2 one with
a reply. -/
def checkAndAsk : List (Action (Fin 3) Unit) :=
  [.call 0 .waitForEvent, .run 0 (answers []),
    .call 1 (.send checkedCall), .run 1 (answers []),
    .call 2 (.send (wordCall false)), .run 2 (answers [])]

/-- Thread 1 waits until its request has failed or succeeded. -/
def waitForCheck : List (Action (Fin 3) Unit) :=
  [.call 1 (.waitForReply 1), .run 1 (answers []), .run 1 (answers [])]

omit [DecidableEq τ] [Fintype τ] in
theorem not_awake {v : τ} {request : BitVec 32}
    (h : ((s.threads v).awaitsReply == some request && s.conn.inp.Decided request &&
      !s.signalled v) = true) : ¬ s.Awake := by
  simp only [Bool.and_eq_true, beq_iff_eq, decide_eq_true_eq, Bool.not_eq_true'] at h
  obtain ⟨⟨hthread, hdecided⟩, hnot⟩ := h
  intro hawake
  have hsignalled := hawake v request (Pc.eq_of_awaitsReply hthread) hdecided
  rw [hnot] at hsignalled
  cases hsignalled

/-- The reply to thread 2 says that the request of thread 1 has succeeded. Thread 1 sleeps on, after
the packet and after thread 0 has begun to poll again. -/
theorem not_awake_waitForCheck :
    ∃ s b u : System (Fin 3) Unit,
      Transition.Reach System.step Windowed (init 16384 65535) s ∧
        s.readsFrom 0 (answers [⟨1, 2, ()⟩]) = some b ∧
        ¬ (b.readPacket (answers [⟨1, 2, ()⟩]) ⟨1, 2, ()⟩).Awake ∧
        s.step (.run 0 (answers [⟨1, 2, ()⟩])) = some u ∧ ¬ u.Awake := by
  set e := answers [⟨1, 2, ()⟩]
  have hrun : ((checkAndAsk.foldlM System.step (init 16384 65535)).bind fun r =>
      (waitForCheck.foldlM System.step r).bind fun s => (s.readsFrom 0 e).bind fun b =>
        (s.step (.run 0 e)).map fun u => decide (∀ v, (r.threads v).waitsFor = none) &&
          (((b.readPacket e ⟨1, 2, ()⟩).threads 1).awaitsReply == some 1 &&
            (b.readPacket e ⟨1, 2, ()⟩).conn.inp.Decided 1 &&
            !(b.readPacket e ⟨1, 2, ()⟩).signalled 1) &&
          ((u.threads 1).awaitsReply == some 1 && u.conn.inp.Decided 1 && !u.signalled 1)) =
        some true := by
    decide +kernel
  obtain ⟨r, hr, hrest⟩ := Option.bind_eq_some_iff.mp hrun
  obtain ⟨s, hs, hrest⟩ := Option.bind_eq_some_iff.mp hrest
  obtain ⟨b, hb, hrest⟩ := Option.bind_eq_some_iff.mp hrest
  obtain ⟨u, hu, hall⟩ := Option.map_eq_some_iff.mp hrest
  rw [Bool.and_eq_true, Bool.and_eq_true, decide_eq_true_eq] at hall
  obtain ⟨⟨hnobody, hpacket⟩, hlater⟩ := hall
  have hfirst : Transition.Reach System.step Windowed (init 16384 65535) r := by
    refine .of_foldlM (fun v a ha => ?_) hr
    simp only [checkAndAsk, List.mem_cons, List.not_mem_nil, or_false] at ha
    rcases ha with rfl | rfl | rfl | rfl | rfl | rfl <;> trivial
  have hcall : r.Windowed (.call 1 (.waitForReply 1)) :=
    ⟨0, by decide, fun v request hv => by rw [hnobody v] at hv; cases hv⟩
  obtain ⟨q, hq, hs⟩ := Option.bind_eq_some_iff.mp hs
  have hlast : Transition.Reach System.step Windowed q s := by
    refine .of_foldlM (fun v a ha => ?_) hs
    simp only [List.mem_cons, List.not_mem_nil, or_false] at ha
    rcases ha with rfl | rfl <;> trivial
  exact ⟨s, b, u, (hfirst.tail hcall hq).trans hlast, hb, not_awake hpacket, hu, not_awake hlater⟩

end System

end Xcb
