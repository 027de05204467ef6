import Mathlib.Algebra.Order.BigOperators.Group.Finset
import Xcb.Output
import Xcb.ReaderList

/-!
# Whose turn it is to read

One thread polls for all that wait. A thread that stops polling wakes the first reader in the list,
or a thread that waits for an event when the list is empty, and so does each thread that leaves
`xcb_wait_for_reply` or `xcb_wait_for_event` without having polled, since the signal may have been
meant for others. A thread that leaves a node behind breaks this: the signal goes to nobody.

## Main definitions

* `System.Tallied` — the threads in `poll` are counted in `c->in.reading` and `c->out.writing`
* `System.Relayed` — when nobody polls, a signal is on its way to a thread that waits

## Main results

* `System.Running.relayed_wake` — waking the next reader up
* `System.relayed_of_reach` — every run
-/

namespace Xcb

variable {τ β : Type}

/-! ### The counters -/

/-- How often a thread counts in `c->in.reading`. -/
def Pc.reading : Pc → ℕ
  | .pollOut _ _ _ | .pollIn _ _ => 1
  | _ => 0

/-- How often it counts in `c->out.writing`. -/
def Pc.writing : Pc → ℕ
  | .pollOut _ _ _ => 1
  | _ => 0

def Pc.isAwaitReader : Pc → Bool
  | .awaitReader _ => true
  | _ => false

theorem Pc.writing_le_reading (pc : Pc) : pc.writing ≤ pc.reading := by
  cases pc <;> first | exact le_rfl | exact Nat.zero_le _

section sum

variable [DecidableEq τ] [Fintype τ]

theorem sum_update (f : Pc → ℕ) (threads : τ → Pc) (t : τ) (pc : Pc) :
    ∑ v, f (Function.update threads t pc v) =
      f pc + ∑ v ∈ Finset.univ.erase t, f (threads v) := by
  rw [← Finset.add_sum_erase Finset.univ _ (Finset.mem_univ t), Function.update_self]
  refine congrArg (f pc + ·) (Finset.sum_congr rfl fun v hv => ?_)
  rw [Function.update_of_ne (Finset.ne_of_mem_erase hv)]

end sum

namespace System

variable [DecidableEq τ] [Fintype τ] {s u : System τ β} {t : τ} {pc : Pc}
  {node : Option (BitVec 32)}

/-- What the counters say while thread `t` runs: they are right if it were at `pc`. -/
structure Tallied (s : System τ β) (t : τ) (pc : Pc) : Prop where
  reading : s.conn.inp.reading = ∑ v, (Function.update s.threads t pc v).reading
  writing : s.conn.out.writing = ∑ v, (Function.update s.threads t pc v).writing

omit [DecidableEq τ] in
/-- What they say between two steps. -/
structure Census (s : System τ β) : Prop where
  reading : s.conn.inp.reading = ∑ v, (s.threads v).reading
  writing : s.conn.out.writing = ∑ v, (s.threads v).writing

omit [DecidableEq τ] [Fintype τ] in
/-- When nobody polls and some thread waits as a reader, a signal has reached one that does. -/
def Relayed (s : System τ β) : Prop :=
  s.conn.inp.reading = 0 → (∃ v waiter, s.threads v = .awaitReader waiter) →
    ∃ v waiter, s.threads v = .awaitReader waiter ∧ s.signalled v = true

theorem Tallied.congr (h : s.Tallied t pc) (hreading : u.conn.inp.reading = s.conn.inp.reading)
    (hwriting : u.conn.out.writing = s.conn.out.writing) (hthreads : u.threads = s.threads) :
    u.Tallied t pc :=
  ⟨by rw [hreading, hthreads, h.reading], by rw [hwriting, hthreads, h.writing]⟩

/-- A thread stops running. -/
theorem Tallied.setPc {pc' : Pc} (h : s.Tallied t pc) (hreading : pc'.reading = pc.reading)
    (hwriting : pc'.writing = pc.writing) : (s.setPc t pc').Census := by
  refine ⟨h.reading.trans ?_, h.writing.trans ?_⟩
  · rw [sum_update, ← hreading, ← sum_update]
    rfl
  · rw [sum_update, ← hwriting, ← sum_update]
    rfl

/-- A thread begins to run. -/
theorem Census.tallied (h : s.Census) (t : τ) : s.Tallied t (s.threads t) := by
  constructor
  · rw [Function.update_eq_self, h.reading]
  · rw [Function.update_eq_self, h.writing]

/-- Where it was before does not matter. -/
theorem Tallied.idle (h : s.Tallied t pc) (pc' : Pc) : (s.setPc t pc').Tallied t pc := by
  refine ⟨h.reading.trans ?_, h.writing.trans ?_⟩ <;> simp only [System.setPc, Function.update_idem]

/-- Who writes also reads. -/
theorem Tallied.writing_le (h : s.Tallied t pc) : s.conn.out.writing ≤ s.conn.inp.reading := by
  rw [h.reading, h.writing]
  exact Finset.sum_le_sum fun v _ => Pc.writing_le_reading _

/-- When the counter is `0`, nobody else polls. -/
theorem Tallied.reading_eq_zero (h : s.Tallied t pc) (hzero : s.conn.inp.reading = 0) {v : τ}
    (hv : v ≠ t) : (s.threads v).reading = 0 := by
  have hsum := Finset.sum_eq_zero_iff.mp (h.reading.symm.trans hzero) v (Finset.mem_univ v)
  rwa [Function.update_of_ne hv] at hsum

/-- `++c->in.reading` -/
theorem Tallied.pollIn (h : s.Tallied t .idle) (failed : Bool) (waiter : Waiter) :
    (s.setInp { s.conn.inp with reading := s.conn.inp.reading + 1 }).Tallied t
      (.pollIn failed waiter) := by
  refine ⟨?_, h.writing.trans ?_⟩
  · show s.conn.inp.reading + 1 = _
    rw [h.reading, sum_update, sum_update, Nat.add_comm, ← Nat.add_assoc]
    rfl
  · rw [sum_update, sum_update]
    rfl

/-- `++c->in.reading; ++c->out.writing` -/
theorem Tallied.pollOut (h : s.Tallied t .idle) (failed : Bool) (sender : Sender)
    (vector : List Iovec) :
    ((s.setInp { s.conn.inp with reading := s.conn.inp.reading + 1 }).setOut
      { s.conn.out with writing := s.conn.out.writing + 1 }).Tallied t
        (.pollOut failed sender vector) := by
  constructor
  · show s.conn.inp.reading + 1 = _
    rw [h.reading, sum_update, sum_update, Nat.add_comm, ← Nat.add_assoc]
    rfl
  · show s.conn.out.writing + 1 = _
    rw [h.writing, sum_update, sum_update, Nat.add_comm, ← Nat.add_assoc]
    rfl

/-- `--c->in.reading` -/
theorem Tallied.endRead {failed : Bool} {waiter : Waiter}
    (h : s.Tallied t (.pollIn failed waiter)) : s.endRead.Tallied t .idle := by
  refine ⟨?_, h.writing.trans ?_⟩
  · show s.conn.inp.reading - 1 = _
    rw [h.reading, sum_update, sum_update]
    exact (Nat.add_sub_cancel_left 1 _).trans (Nat.zero_add _).symm
  · rw [sum_update, sum_update]
    rfl

/-- `--c->out.writing; --c->in.reading` -/
theorem Tallied.endWrite {failed : Bool} {sender : Sender} {vector : List Iovec}
    (h : s.Tallied t (.pollOut failed sender vector)) : s.endWrite.endRead.Tallied t .idle := by
  constructor
  · show s.conn.inp.reading - 1 = _
    rw [h.reading, sum_update, sum_update]
    exact (Nat.add_sub_cancel_left 1 _).trans (Nat.zero_add _).symm
  · show s.conn.out.writing - 1 = _
    rw [h.writing, sum_update, sum_update]
    exact (Nat.add_sub_cancel_left 1 _).trans (Nat.zero_add _).symm

/-! ### Waking the next reader up -/

/-- Thread `t` runs, with the list and the counters in order. -/
structure Running (s : System τ β) (t : τ) (node : Option (BitVec 32)) : Prop where
  idle : s.threads t = .idle
  listed : s.Listed t node
  tallied : s.Tallied t .idle

theorem Running.congr (h : s.Running t node)
    (hreading : u.conn.inp.reading = s.conn.inp.reading)
    (hreaders : u.conn.inp.readers = s.conn.inp.readers)
    (hwriting : u.conn.out.writing = s.conn.out.writing) (hthreads : u.threads = s.threads) :
    u.Running t node :=
  ⟨by rw [hthreads, h.idle], h.listed.congr hreaders hthreads,
    h.tallied.congr hreading hwriting hthreads⟩

theorem Running.of_reads (h : s.Running t node) (hreads : Reads s u) :
    u.Running t node :=
  h.congr hreads.reading hreads.readers (by rw [hreads.out]) hreads.threads

/-- **A signal is sent** to a thread that waits, unless another thread polls. -/
theorem Running.relayed_wake (h : s.Running t none) (e : Env τ β) :
    (s.wakeUpNextReader e).Relayed := by
  have hreads := reads_wakeUpNextReader s e
  rw [Relayed, hreads.reading, hreads.threads]
  rintro hzero ⟨v, waiter, hv⟩
  have hne : ∀ {w waiter}, s.threads w = .awaitReader waiter → w ≠ t := by
    rintro w waiter hw rfl
    rw [h.idle] at hw
    cases hw
  rw [wakeUpNextReader, XcbIn.wakeUpNextReader]
  cases hreaders : s.conn.inp.readers with
  | cons r next =>
    -- its node is in the list, and it does not poll
    have hnode := (h.listed.mem_iff r).mp (hreaders ▸ List.mem_cons_self)
    have hrt : r.data ≠ t := by
      intro hrt
      rw [hrt, Function.update_self] at hnode
      cases hnode
    rw [Function.update_of_ne hrt] at hnode
    have hpolls := h.tallied.reading_eq_zero hzero hrt
    cases hr : s.threads r.data with
    | awaitReader waiter' =>
      refine ⟨r.data, waiter', hr, ?_⟩
      rw [hr] at hnode
      cases waiter' with
      | reply request => simp [signal, hr]
      | event => cases hnode
    | pollIn failed waiter' =>
      rw [hr] at hpolls
      cases hpolls
    | _ =>
      rw [hr] at hnode
      cases hnode
  | nil =>
    have hevent : waiter = .event := by
      cases waiter with
      | event => rfl
      | reply request =>
        have hmem := (h.listed.mem_iff ⟨request, v⟩).mpr (by
          rw [Function.update_of_ne (hne hv), hv]
          rfl)
        rw [hreaders] at hmem
        cases hmem
    rw [hevent] at hv
    simp only [signal]
    cases hfind : e.order.find? s.awaitsEvent with
    | some w =>
      have hw := List.find?_some hfind
      rw [awaitsEvent] at hw
      split at hw
      · next heq => exact ⟨w, .event, heq, Function.update_self w true s.signalled⟩
      · cases hw
    | none =>
      have hnot := List.find?_eq_none.mp hfind v (e.complete v)
      rw [awaitsEvent, hv] at hnot
      exact ⟨v, .event, hv, by simpa using hnot⟩

omit [DecidableEq τ] [Fintype τ] in
theorem Relayed.congr (h : s.Relayed) (hreading : u.conn.inp.reading = s.conn.inp.reading)
    (hthreads : u.threads = s.threads)
    (hsignalled : ∀ v, s.signalled v = true → u.signalled v = true) : u.Relayed := by
  rw [Relayed, hreading, hthreads]
  intro hzero hwaits
  obtain ⟨v, waiter, hv, hsignal⟩ := h hzero hwaits
  exact ⟨v, waiter, hv, hsignalled v hsignal⟩

omit [Fintype τ] in
/-- A thread goes from one place to another, and waits as a reader in neither. -/
theorem Relayed.setPc (h : s.Relayed) (hold : (s.threads t).isAwaitReader = false)
    (hnew : pc.isAwaitReader = false) : (s.setPc t pc).Relayed := by
  have hne : ∀ {u : System τ β} {v waiter}, (u.threads t).isAwaitReader = false →
      u.threads v = .awaitReader waiter → v ≠ t := by
    rintro u v waiter ht hv rfl
    rw [hv] at ht
    cases ht
  rintro hzero ⟨v, waiter, hv⟩
  have hvt := hne (by rwa [threads_setPc_self]) hv
  rw [threads_setPc_of_ne s hvt] at hv
  obtain ⟨w, waiter', hw, hsignal⟩ := h hzero ⟨v, waiter, hv⟩
  exact ⟨w, waiter', by rw [threads_setPc_of_ne s (hne hold hw), hw], hsignal⟩

omit [DecidableEq τ] [Fintype τ] in
theorem relayed_of_reading (h : s.conn.inp.reading ≠ 0) : s.Relayed := fun hzero => absurd hzero h

/-- What holds between two steps. -/
structure Attended (s : System τ β) : Prop where
  census : s.Census
  relayed : s.Relayed

/-! ### Reading -/

section reading

variable {e : Env τ β} {request : BitVec 32} {waiter : Waiter}

omit [DecidableEq τ] [Fintype τ] in
theorem Relayed.setInp (h : s.Relayed) {inp : XcbIn τ β}
    (hreading : inp.reading = s.conn.inp.reading) : (s.setInp inp).Relayed :=
  h.congr hreading rfl fun _ => id

omit [DecidableEq τ] [Fintype τ] in
theorem Relayed.note (h : s.Relayed) (entry : Entry β) : (s.note entry).Relayed :=
  h.congr rfl rfl fun _ => id

theorem Running.leave (h : s.Running t node) (hrelayed : s.Relayed) (entry : Entry β) :
    (s.leave t entry).Attended := by
  have hcensus : (s.setPc t .idle).Census := h.tallied.setPc rfl rfl
  have hidle : (s.threads t).isAwaitReader = false := by rw [h.idle]; rfl
  exact ⟨⟨hcensus.reading, hcensus.writing⟩, (hrelayed.setPc hidle rfl).note entry⟩

theorem Running.waitRead (h : s.Running t node) (waiter : Waiter) :
    (s.waitRead t waiter).Attended := by
  rw [System.waitRead]
  split
  · next hreading =>
    have hcensus : (s.setPc t (.awaitReader waiter)).Census := h.tallied.setPc rfl rfl
    exact ⟨⟨hcensus.reading, hcensus.writing⟩, relayed_of_reading hreading⟩
  · exact ⟨(h.tallied.pollIn false waiter).setPc rfl rfl, relayed_of_reading (Nat.succ_ne_zero _)⟩

/-- A thread that has no node any more wakes the next reader up and leaves. -/
theorem Running.pass (h : s.Running t none) (entry : Entry β) :
    ((s.wakeUpNextReader e).leave t entry).Attended :=
  (h.of_reads (reads_wakeUpNextReader s e)).leave (h.relayed_wake e) entry

theorem Running.leaveReply (h : s.Running t (some request)) (reply : Option (Buffer β)) :
    (s.leaveReply e t request reply).Attended := by
  have hremoved : (s.setInp { s.conn.inp with
      readers := removeReader ⟨request, t⟩ s.conn.inp.readers }).Running t none :=
    ⟨h.idle, h.listed.removeReader, h.tallied.congr rfl rfl rfl⟩
  exact hremoved.pass _

theorem Running.pollForReply (h : s.Running t node) :
    (s.setInp (s.conn.inp.pollForReply request).2).Running t node := by
  obtain ⟨currentReply, replies, heq⟩ := s.conn.inp.pollForReply_snd request
  rw [heq]
  exact h.congr rfl rfl rfl rfl

theorem Running.waitReply (h : s.Running t (some request)) :
    (s.waitReply e t request).Attended := by
  rw [System.waitReply]
  split
  · exact h.pollForReply.leaveReply _
  · exact h.pollForReply.waitRead _

theorem Running.startReply (h : s.Running t none) :
    (s.startReply e t request).Attended := by
  have hinserted : (s.setInp { s.conn.inp with
      readers := insertReader ⟨request, t⟩ s.conn.inp.readers }).Running t (some request) :=
    ⟨h.idle, h.listed.insertReader, h.tallied.congr rfl rfl rfl⟩
  exact hinserted.waitReply

theorem Running.getEvent (h : s.Running t node) :
    (s.setInp s.conn.inp.getEvent.2).Running t node := by
  rw [XcbIn.getEvent_snd]
  exact h.congr rfl rfl rfl rfl

theorem Running.waitEvent (h : s.Running t none) : (s.waitEvent e t).Attended := by
  rw [System.waitEvent]
  split
  · exact h.getEvent.pass _
  · exact h.getEvent.waitRead _

theorem Running.afterRead (h : s.Running t waiter.waitsFor) (ret : Bool) :
    (s.afterRead e t waiter ret).Attended := by
  cases waiter <;> cases ret
  · exact h.leaveReply none
  · exact h.waitReply
  · exact h.pass _
  · exact h.waitEvent

omit [Fintype τ] in
theorem signalled_signal (s : System τ β) (order : List τ) (condition : Signal τ) {v : τ}
    (h : s.signalled v = true) : (s.signal order condition).signalled v = true := by
  have hupdate : ∀ w, Function.update s.signalled w true v = true := by
    intro w
    by_cases hvw : v = w
    · rw [hvw, Function.update_self]
    · rw [Function.update_of_ne hvw, h]
  cases condition with
  | reader w =>
    simp only [signal]
    split
    · exact hupdate w
    · exact h
  | event =>
    simp only [signal]
    split
    · next w _ => exact hupdate w
    · exact h

omit [Fintype τ] in
theorem signalled_readPacket (s : System τ β) (e : Env τ β) (p : Packet β) {v : τ}
    (h : s.signalled v = true) : (s.readPacket e p).signalled v = true := by
  rw [readPacket]
  split
  · exact signalled_signal _ _ _ h
  · exact h

omit [Fintype τ] in
/-- A thread does not lose its signal while another one reads. -/
theorem signalled_inRead (s : System τ β) (e : Env τ β) {v : τ} (h : s.signalled v = true) :
    (s.inRead e).1.signalled v = true := by
  have hfold : ∀ packets : List (Packet β), ∀ u : System τ β, u.signalled v = true →
      (packets.foldl (fun s p => s.readPacket e p) u).signalled v = true := by
    intro packets
    induction packets with
    | nil => exact fun _ => id
    | cons p packets ih => exact fun u hu => ih _ (signalled_readPacket u e p hu)
  have hpackets := hfold e.recv.packets s h
  rw [inRead]
  cases e.recv.aborted <;> cases e.recv.closed <;> exact hpackets

theorem Running.pollEvent (h : s.Running t none) (hrelayed : s.Relayed) :
    (s.pollEvent e t).Attended := by
  have hget : ∀ {u : System τ β}, u.Relayed → (u.setInp u.conn.inp.getEvent.2).Relayed :=
    fun hu => hu.setInp (by rw [XcbIn.getEvent_snd])
  rw [System.pollEvent]
  split
  · exact h.getEvent.leave (hget hrelayed) _
  · have hread := reads_inRead (s.setInp s.conn.inp.getEvent.2) e
    have hrunning := h.getEvent.of_reads hread
    have hkept := (hget hrelayed).congr hread.reading hread.threads
      fun v => signalled_inRead _ e
    dsimp only
    split
    · exact hrunning.getEvent.leave (hget hkept) _
    · exact hrunning.leave hkept _

/-- A thread that polled begins to run. -/
theorem Running.finishRead (hqueued : s.Queued) (hcensus : s.Census) {failed : Bool}
    (ht : s.threads t = .pollIn failed waiter) : (s.finishRead e t failed waiter).Attended := by
  have hreads := reads_pollRead s e failed
  have hlisted := (hqueued.listed t).of_reads hreads
  have htallied := (hcensus.tallied t).congr hreads.reading (by rw [hreads.out]) hreads.threads
  rw [ht] at hlisted htallied
  have hrunning : ((s.pollRead e failed).1.endRead.setPc t .idle).Running t waiter.waitsFor :=
    ⟨threads_setPc_self _ t .idle, Listed.idle (hlisted.setReading _) .idle,
      htallied.endRead.idle .idle⟩
  exact hrunning.afterRead _

end reading

/-! ### Writing -/

section writing

variable {e : Env τ β} {f : Flusher} {sender : Sender}

theorem Running.setOut (h : s.Running t node) (out : XcbOut)
    (hwriting : out.writing = s.conn.out.writing) : (s.setOut out).Running t node :=
  h.congr rfl rfl hwriting rfl

theorem Running.note (h : s.Running t node) (entry : Entry β) :
    (s.note entry).Running t node :=
  h.congr rfl rfl rfl rfl

omit [DecidableEq τ] [Fintype τ] in
theorem Relayed.setOut (h : s.Relayed) (out : XcbOut) : (s.setOut out).Relayed :=
  h.congr rfl rfl fun _ => id

/-- A thread stops running where it does not poll or wait as a reader. -/
theorem Running.park (h : s.Running t node) (hrelayed : s.Relayed) {pc : Pc}
    (hreading : pc.reading = 0) (hwriting : pc.writing = 0) (hpc : pc.isAwaitReader = false) :
    (s.setPc t pc).Attended :=
  ⟨h.tallied.setPc hreading hwriting, hrelayed.setPc (by rw [h.idle]; rfl) hpc⟩

theorem Running.takeSocket (h : s.Running t node) (flags : Flags) :
    (s.takeSocket e flags).Running t node := by
  refine h.congr ?_ ?_ rfl rfl
  · change (s.conn.handOver s.handoffs flags).inp.reading = _
    rw [XcbConnection.handOver]
    split <;> rfl
  · change (s.conn.handOver s.handoffs flags).inp.readers = _
    rw [XcbConnection.handOver]
    split <;> rfl

theorem Running.afterFlush (h : s.Running t none) (hrelayed : s.Relayed) (ret : Bool) :
    (s.afterFlush e t f ret).Attended := by
  cases f with
  | flush target => exact h.leave hrelayed _
  | takeSocket flags =>
    cases ret with
    | true =>
      have htake := h.takeSocket (e := e) flags
      have hkept : (s.takeSocket e flags).Relayed := by
        refine hrelayed.congr ?_ rfl fun _ => id
        rw [htake.tallied.reading, h.tallied.reading]
        rfl
      exact htake.leave hkept _
    | false => exact h.leave hrelayed _
  | waitForReply request =>
    cases ret with
    | true => exact h.startReply
    | false => exact h.pass _

theorem Running.afterSend (h : s.Running t none) (hrelayed : s.Relayed)
    (ret : Bool) : (s.afterSend e t sender ret).Attended := by
  cases sender with
  | send number last =>
    cases ret with
    | true => exact h.leave hrelayed _
    | false =>
      exact (h.of_reads (reads_shutdown s)).leave (hrelayed.congr rfl rfl fun _ => id) _
  | writev last => exact h.leave hrelayed _
  | flusher f => exact h.afterFlush hrelayed ret

/-- While another thread writes, it reads as well. -/
theorem Running.waitWrite (h : s.Running t none) (vector : List Iovec) :
    (s.waitWrite t sender vector).Attended := by
  rw [System.waitWrite]
  split
  · next hwriting =>
    have hreading : s.conn.inp.reading ≠ 0 :=
      fun hzero => hwriting (Nat.le_zero.mp (hzero ▸ h.tallied.writing_le))
    exact h.park (relayed_of_reading hreading) rfl rfl rfl
  · exact ⟨(h.tallied.pollOut false sender vector).setPc rfl rfl,
      relayed_of_reading (Nat.succ_ne_zero _)⟩

theorem Running.outSend (h : s.Running t none) (ret : Bool) (vector : List Iovec) :
    (s.outSend e t sender ret vector).Attended := by
  rw [System.outSend]
  split
  · exact h.waitWrite vector
  · have hsent := h.setOut { s.conn.out with requestWritten := s.conn.out.request } rfl
    exact (hsent.of_reads (reads_wakeUpNextReader _ e)).afterSend (hsent.relayed_wake e) ret

omit [Fintype τ] in
theorem pollWrite_counts (s : System τ β) (e : Env τ β) (failed : Bool) (vector : List Iovec) :
    (s.pollWrite e failed vector).1.conn.inp.reading = s.conn.inp.reading ∧
      (s.pollWrite e failed vector).1.conn.out.writing = s.conn.out.writing ∧
      (s.pollWrite e failed vector).1.threads = s.threads := by
  have hreads := reads_pollRead s e failed
  rw [System.pollWrite]
  split
  · rw [← hreads.reading, ← hreads.out, ← hreads.threads]
    cases e.writev <;> exact ⟨rfl, rfl, rfl⟩
  · exact ⟨hreads.reading, by rw [hreads.out], hreads.threads⟩

/-- A thread that wrote begins to run. -/
theorem Running.finishWrite (hqueued : s.Queued) (hcensus : s.Census) {failed : Bool}
    {vector : List Iovec} (ht : s.threads t = .pollOut failed sender vector) :
    (s.finishWrite e t failed sender vector).Attended := by
  obtain ⟨hreading, hwriting, hthreads⟩ := s.pollWrite_counts e failed vector
  have hlisted := (hqueued.listed t).pollWrite (e := e) failed vector
  have htallied := (hcensus.tallied t).congr hreading hwriting hthreads
  rw [ht] at hlisted htallied
  have hrunning : ((s.pollWrite e failed vector).1.endWrite.endRead.setPc t .idle).Running t none :=
    ⟨threads_setPc_self _ t .idle, Listed.idle ((hlisted.setOut _).setReading _) .idle,
      htallied.endWrite.idle .idle⟩
  exact hrunning.outSend _ _

theorem Running.awaitWritten (h : s.Running t none) (hrelayed : s.Relayed)
    (request : BitVec 64) (n : ℕ) : (s.awaitWritten e t f request n).Attended := by
  rw [System.awaitWritten]
  split
  · exact h.park hrelayed rfl rfl rfl
  · exact (h.note _).afterFlush (hrelayed.note _) true

theorem Running.flushTo (h : s.Running t none) (hrelayed : s.Relayed)
    (request : BitVec 64) : (s.flushTo e t f request).Attended := by
  rw [System.flushTo]
  split
  · exact (h.note _).afterFlush (hrelayed.note _) true
  · split
    · have hchecked : (s.check .flushToRequest
          (sequenceCompare request s.conn.out.request ≤ 0)).Running t none := h.note _
      exact Running.outSend (hchecked.setOut s.conn.out.takeQueue.1 rfl) true _
    · exact (h.note _).awaitWritten (hrelayed.note _) request _

theorem Running.writeBlock (h : s.Running t none) (hrelayed : s.Relayed)
    (number : BitVec 64) (vector : List (List UInt8)) :
    (s.writeBlock e t number vector).Attended := by
  have hwriting : (s.conn.out.writeBlock vector).1.writing = s.conn.out.writing := by
    obtain ⟨queue, queueLen, heq⟩ := out_writeBlock_eq s.conn.out vector
    rw [heq]
  rw [System.writeBlock]
  split
  · exact (h.setOut _ hwriting).leave (hrelayed.setOut _) _
  · exact Running.outSend (h.setOut _ hwriting) true _

theorem Running.sendRequest (h : s.Running t none) (hrelayed : s.Relayed)
    (req : PreparedRequest) : (s.sendRequest e t req).Attended := by
  have hconn := numberRequest_fst s.conn req
  have hnumber : ((s.note (.numbered s.conn.out.writing
      s.conn.out.returnSocket.isSome)).numberRequest e req).Running t none := by
    refine h.congr ?_ ?_ ?_ rfl
    · change (s.conn.numberRequest req).1.inp.reading = _
      rw [hconn]
    · change (s.conn.numberRequest req).1.inp.readers = _
      rw [hconn]
    · change (s.conn.numberRequest req).1.out.writing = _
      rw [hconn]
  have hkept : ((s.note (.numbered s.conn.out.writing
      s.conn.out.returnSocket.isSome)).numberRequest e req).Relayed := by
    refine hrelayed.congr ?_ rfl fun _ => id
    change (s.conn.numberRequest req).1.inp.reading = _
    rw [hconn]
  exact hnumber.writeBlock hkept _ _

theorem Running.afterSocket (h : s.Running t none) (hrelayed : s.Relayed) (taker : Taker) :
    (s.afterSocket e t taker).Attended := by
  cases taker with
  | send req => exact h.sendRequest hrelayed req
  | takeSocket flags => exact Running.flushTo h hrelayed _

theorem Running.getSocketBack (h : s.Running t none) (hrelayed : s.Relayed) (taker : Taker) :
    (s.getSocketBack e t taker).Attended := by
  rw [System.getSocketBack]
  split
  · exact h.afterSocket hrelayed taker
  · split
    · exact h.park hrelayed rfl rfl rfl
    · next handoff _ _ =>
      have hcalled : ((s.setOut { s.conn.out with socketMoving := true }).note
          (.callback handoff)).Running t none := h.congr rfl rfl rfl rfl
      exact hcalled.park ((hrelayed.setOut _).note _) rfl rfl rfl

theorem Running.awaitTurn (h : s.Running t none) (hrelayed : s.Relayed)
    (req : PreparedRequest) : (s.awaitTurn e t req).Attended := by
  rw [System.awaitTurn]
  split
  · exact h.park hrelayed rfl rfl rfl
  · exact h.getSocketBack hrelayed _

theorem Running.writev (h : s.Running t none) (vector requests : List (List UInt8)) :
    (s.writev e t vector requests).Attended := by
  have hnumber : (s.numberOwner requests).Running t none := h.congr rfl rfl rfl rfl
  exact Running.outSend hnumber true _

end writing

/-! ### Steps -/

theorem Running.start {e : Env τ β} {call : Call PreparedRequest}
    (h : s.Running t none) (hrelayed : s.Relayed) :
    (s.start e t call).Attended := by
  cases call with
  | send req => exact Running.awaitTurn h hrelayed req
  | flush => exact Running.flushTo h hrelayed _
  | takeSocket flags => exact Running.getSocketBack h hrelayed _
  | writev vector requests => exact Running.writev h vector requests
  | waitForReply request =>
    rw [System.start]
    split
    · exact Running.startReply h
    · exact Running.flushTo h hrelayed _
  | pollForReply request =>
    refine h.pollForReply.leave (hrelayed.setInp ?_) _
    obtain ⟨currentReply, replies, heq⟩ := s.conn.inp.pollForReply_snd request
    rw [heq]
  | discardReply request =>
    obtain ⟨currentReply, replies, pending, heq⟩ :=
      s.conn.inp.discardReply_eq s.conn.out.request request
    have hinp : (s.setInp (s.conn.inp.discardReply s.conn.out.request request)).Running t none := by
      rw [heq]
      exact h.congr rfl rfl rfl rfl
    exact hinp.leave (hrelayed.setInp (by rw [heq])) _
  | waitForEvent => exact Running.waitEvent h
  | pollForEvent => exact h.pollEvent hrelayed

/-- A call that a thread has just made changes nothing that readers share. -/
theorem Attended.lock (h : s.Attended) (hidle : s.threads t = .idle) (call : Call PreparedRequest) :
    (s.setPc t (.lock call)).Attended := by
  have htallied := h.census.tallied t
  rw [hidle] at htallied
  exact ⟨htallied.setPc rfl rfl, h.relayed.setPc (by rw [hidle]; rfl) rfl⟩

omit [DecidableEq τ] in
theorem Attended.congr (h : s.Attended) (hinp : u.conn.inp = s.conn.inp)
    (hout : u.conn.out = s.conn.out) (hthreads : u.threads = s.threads)
    (hsignalled : u.signalled = s.signalled) : u.Attended := by
  refine ⟨⟨?_, ?_⟩, h.relayed.congr (by rw [hinp]) hthreads fun v hv => by rw [hsignalled, hv]⟩
  · rw [hinp, hthreads, h.census.reading]
  · rw [hout, hthreads, h.census.writing]

/-- What a call does before it takes the lock is nothing to the readers. -/
theorem Attended.enter (h : s.Attended) (hidle : s.threads t = .idle) (call : Call SendCall) :
    (s.enter t call).Attended := by
  cases call with
  | send call =>
    rw [System.enter]
    split
    · exact h.lock hidle _
    · exact h.congr rfl rfl rfl rfl
  | discardReply request =>
    rw [System.enter]
    split
    · exact h.congr rfl rfl rfl rfl
    · exact h.lock hidle _
  | flush => exact h.lock hidle _
  | takeSocket flags => exact h.lock hidle _
  | writev vector requests => exact h.lock hidle _
  | waitForReply request => exact h.lock hidle _
  | pollForReply request => exact h.lock hidle _
  | waitForEvent => exact h.lock hidle _
  | pollForEvent => exact h.lock hidle _

theorem Attended.call (h : s.Attended) {call : Call SendCall} (hcall : s.call t call = some u) :
    u.Attended := by
  rw [System.call] at hcall
  split at hcall
  · next hidle =>
    split at hcall
    · split at hcall
      · cases hcall
        cases call <;> exact h.congr rfl rfl rfl rfl
      · cases hcall
        exact h.enter hidle call
    · cases hcall
  · cases hcall

theorem Attended.pollFails (h : s.Attended) (hfails : s.pollFails t = some u) : u.Attended := by
  have htallied := (h.census.tallied t).congr (u := s.shutdown) rfl rfl rfl
  have hrelayed := h.relayed.congr (u := s.shutdown) rfl rfl fun _ => id
  have hsame : s.shutdown.threads t = s.threads t := rfl
  rw [System.pollFails] at hfails
  split at hfails
  · next heq =>
    cases hfails
    rw [show s.threads t = _ from heq] at htallied
    exact ⟨htallied.setPc rfl rfl, hrelayed.setPc (by rw [hsame, heq]; rfl) rfl⟩
  · next heq =>
    cases hfails
    rw [show s.threads t = _ from heq] at htallied
    exact ⟨htallied.setPc rfl rfl, hrelayed.setPc (by rw [hsame, heq]; rfl) rfl⟩
  · cases hfails

/-- A thread that does not poll gets the lock. -/
theorem Attended.running (h : s.Attended) (hqueued : s.Queued)
    (hreading : (s.threads t).reading = 0) (hwriting : (s.threads t).writing = 0) :
    (s.setPc t .idle).Running t (s.threads t).hasNode := by
  have hcensus : (s.setPc t .idle).Census := (h.census.tallied t).setPc hreading.symm hwriting.symm
  have htallied := hcensus.tallied t
  rw [threads_setPc_self] at htallied
  exact ⟨threads_setPc_self s t .idle, (hqueued.listed t).idle .idle, htallied⟩

theorem Attended.run (h : s.Attended) (hqueued : s.Queued) {e : Env τ β}
    (hrun : s.run t e = some u) : u.Attended := by
  have hrunning := h.running (t := t) hqueued
  have hrelayed := @Relayed.setPc τ β _ s t .idle h.relayed
  rw [System.run] at hrun
  split at hrun
  · cases hrun
  · next heq =>
    cases hrun
    rw [heq] at hrunning hrelayed
    exact (hrunning rfl rfl).start (hrelayed rfl rfl)
  · next heq =>
    cases hrun
    rw [heq] at hrunning hrelayed
    exact (hrunning rfl rfl).awaitTurn (hrelayed rfl rfl) _
  · next heq =>
    cases hrun
    rw [heq] at hrunning hrelayed
    exact (hrunning rfl rfl).getSocketBack (hrelayed rfl rfl) _
  · next heq =>
    split at hrun
    · cases hrun
      rw [heq] at hrunning hrelayed
      obtain ⟨pending, hdone⟩ := s.conn.inp.repliesDone_eq s.conn.out.request
      have hinp : (s.endCallback.setPc t .idle).conn.inp =
          { s.conn.inp with pendingReplies := pending } := hdone
      have hback : (s.endCallback.setPc t .idle).Running t none :=
        (hrunning rfl rfl).congr (by rw [hinp]; rfl) (by rw [hinp]; rfl) rfl rfl
      have hkept : (s.endCallback.setPc t .idle).Relayed :=
        (hrelayed rfl rfl).congr (by rw [hinp]; rfl) rfl fun _ => id
      exact hback.afterSocket hkept _
    · cases hrun
  · next heq =>
    cases hrun
    rw [heq] at hrunning hrelayed
    exact Running.outSend (hrunning rfl rfl) true _
  · next heq =>
    split at hrun
    · cases hrun
      exact Running.finishWrite hqueued h.census heq
    · cases hrun
  · next heq =>
    cases hrun
    rw [heq] at hrunning hrelayed
    exact Running.awaitWritten (hrunning rfl rfl) (hrelayed rfl rfl) _ _
  · next heq =>
    cases hrun
    rw [heq] at hrunning
    exact Running.afterRead (hrunning rfl rfl) true
  · next heq =>
    cases hrun
    exact Running.finishRead hqueued h.census heq

theorem Attended.step (h : s.Attended) (hqueued : s.Queued) {a : Action τ β}
    (hstep : s.step a = some u) : u.Attended := by
  cases a with
  | call t call => exact h.call hstep
  | pollFails t => exact h.pollFails hstep
  | run t e => exact h.run hqueued hstep

omit [DecidableEq τ] in
theorem attended_init (size : ℕ) (maximum : BitVec 16) :
    (init size maximum : System τ β).Attended := by
  refine ⟨⟨?_, ?_⟩, fun _ ⟨v, waiter, hv⟩ => ?_⟩
  · exact (Finset.sum_const_zero).symm
  · exact (Finset.sum_const_zero).symm
  · cases hv

/-! ### The result -/

/-- **The readers' turn** is never lost: when nobody polls and some thread waits as a reader, one of
these threads has been signalled and will go on. -/
theorem relayed_of_reach {size : ℕ} {maximum : BitVec 16}
    (h : Transition.Reach step (fun _ _ => True) (init size maximum) s) : s.Relayed := by
  have hboth : s.Queued ∧ s.Attended :=
    h.invariant (P := fun s => s.Queued ∧ s.Attended)
      (fun _ _ _ h _ hstep => ⟨h.1.step hstep, h.2.step h.1 hstep⟩)
      ⟨queued_init size maximum, attended_init size maximum⟩
  exact hboth.2.relayed

/-- Two threads wait for the same reply. The one that polls reads an event of a later request, and
leaves. -/
theorem relayed_once :
    ∃ s : System (Fin 2) Unit, s.conn.inp.reading = 0 ∧ (s.threads 1).isAwaitReader = true ∧
      s.Relayed := by
  have hrun : (waitTwice.step (.run 0 { silent with
      pollin := true, recv := ⟨[⟨2, 2, ()⟩], none, false⟩ })).map (fun s =>
        (s.conn.inp.reading, (s.threads 1).isAwaitReader)) = some (0, true) := by
    decide +kernel
  obtain ⟨s, hstep, hs⟩ := Option.map_eq_some_iff.mp hrun
  obtain ⟨hreading, hawaits⟩ := Prod.mk.inj hs
  exact ⟨s, hreading, hawaits, relayed_of_reach (reach_waitTwice.tail trivial hstep)⟩

end System

end Xcb
