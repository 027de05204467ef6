import Xcb.Threads

/-!
# Threads that read

Reading, and waking other readers up, changes the input half of the connection and nothing else that
the threads share, except that it can fail. So do the calls that only read.

## Main definitions

* `System.Reads` — packets were read
* `System.Serves` — a thread has read, and returns, waits or polls

## Main results

* `System.reads_pollRead` — what `_xcb_conn_wait` reads
* `System.serves_afterRead`, `System.serves_finishRead` — a reader goes on
-/

namespace Xcb

variable {τ β : Type}

namespace System

variable [DecidableEq τ]

/-! ### What reading leaves alone -/

/-- Between the two states packets were read and readers signalled, and nothing else. -/
structure Reads (s u : System τ β) : Prop where
  reading : u.conn.inp.reading = s.conn.inp.reading
  readers : u.conn.inp.readers = s.conn.inp.readers
  out : u.conn.out = s.conn.out
  hasError : s.conn.hasError = true → u.conn.hasError = true
  threads : u.threads = s.threads
  socket : u.socket = s.socket
  requests : u.requests = s.requests
  handoffs : u.handoffs = s.handoffs
  log : u.log = s.log

variable {s u v : System τ β}

omit [DecidableEq τ] in
theorem Reads.refl (s : System τ β) : Reads s s :=
  ⟨rfl, rfl, rfl, id, rfl, rfl, rfl, rfl, rfl⟩

omit [DecidableEq τ] in
theorem Reads.trans (h : Reads s u) (h' : Reads u v) : Reads s v where
  reading := h'.reading.trans h.reading
  readers := h'.readers.trans h.readers
  out := h'.out.trans h.out
  hasError := h'.hasError ∘ h.hasError
  threads := h'.threads.trans h.threads
  socket := h'.socket.trans h.socket
  requests := h'.requests.trans h.requests
  handoffs := h'.handoffs.trans h.handoffs
  log := h'.log.trans h.log

theorem reads_signal (s : System τ β) (order : List τ) (condition : Signal τ) :
    Reads s (s.signal order condition) := by
  cases condition with
  | reader t =>
    simp only [signal]
    split
    · exact ⟨rfl, rfl, rfl, id, rfl, rfl, rfl, rfl, rfl⟩
    · exact .refl s
  | event =>
    simp only [signal]
    split
    · exact ⟨rfl, rfl, rfl, id, rfl, rfl, rfl, rfl, rfl⟩
    · exact .refl s

theorem conn_signal (s : System τ β) (order : List τ) (condition : Signal τ) :
    (s.signal order condition).conn = s.conn := by
  cases condition <;> simp only [signal] <;> split <;> rfl

theorem reads_wakeUpNextReader (s : System τ β) (e : Env τ β) : Reads s (s.wakeUpNextReader e) :=
  reads_signal s e.order _

omit [DecidableEq τ] in
theorem reads_setInp {inp : XcbIn τ β} (hreading : inp.reading = s.conn.inp.reading)
    (hreaders : inp.readers = s.conn.inp.readers) : Reads s (s.setInp inp) :=
  ⟨hreading, hreaders, rfl, id, rfl, rfl, rfl, rfl, rfl⟩

omit [DecidableEq τ] in
theorem reads_shutdown (s : System τ β) : Reads s s.shutdown :=
  ⟨rfl, rfl, rfl, fun _ => rfl, rfl, rfl, rfl, rfl, rfl⟩

theorem reads_readPacket (s : System τ β) (e : Env τ β) (p : Packet β) :
    Reads s (s.readPacket e p) := by
  have hinp : Reads s (s.setInp (s.conn.inp.readPacket p).1) := by
    apply reads_setInp <;> rw [XcbIn.readPacket_fst] <;> simp
  unfold readPacket
  dsimp only
  split
  · exact hinp.trans (reads_signal _ _ _)
  · exact hinp

theorem reads_inRead (s : System τ β) (e : Env τ β) : Reads s (s.inRead e).1 := by
  have hfold : ∀ packets : List (Packet β), ∀ s : System τ β,
      Reads s (packets.foldl (fun s p => s.readPacket e p) s) := by
    intro packets
    induction packets with
    | nil => exact Reads.refl
    | cons p packets ih => exact fun s => (reads_readPacket s e p).trans (ih _)
  have hpackets := hfold e.recv.packets s
  have hclose : ∀ u : System τ β, Reads s u →
      Reads s (if e.recv.closed then (u.shutdown, false) else (u, true)).1 := by
    intro u hu
    split
    · exact hu.trans (reads_shutdown _)
    · exact hu
  unfold inRead
  cases e.recv.aborted with
  | none => exact hclose _ hpackets
  | some p =>
    exact hclose _ ((hpackets.trans (reads_setInp (by simp) (by simp))).trans (reads_shutdown _))

/-- `_xcb_in_read` returns `0` when the connection is closed. -/
theorem inRead_snd (s : System τ β) (e : Env τ β) : (s.inRead e).2 = !e.recv.closed := by
  unfold inRead
  dsimp only
  cases e.recv.closed <;> rfl

theorem hasError_inRead (s : System τ β) {e : Env τ β} (h : (s.inRead e).2 = false) :
    (s.inRead e).1.conn.hasError = true := by
  rw [inRead_snd, Bool.not_eq_false'] at h
  unfold inRead
  dsimp only
  rw [if_pos h]
  rfl

theorem reads_pollRead (s : System τ β) (e : Env τ β) (failed : Bool) :
    Reads s (s.pollRead e failed).1 := by
  unfold pollRead
  split
  · exact .refl s
  · split
    · exact reads_inRead s e
    · exact .refl s

theorem pollRead_snd (s : System τ β) (e : Env τ β) (failed : Bool) :
    (s.pollRead e failed).2 = (!failed && !(e.pollin && e.recv.closed)) := by
  unfold pollRead
  cases failed with
  | true => rfl
  | false =>
    cases hin : e.pollin with
    | true => simp [inRead_snd]
    | false => simp

/-- When nothing can be read any more, the connection is in error. -/
theorem hasError_pollRead {e : Env τ β} {failed : Bool}
    (hfailed : failed = true → s.conn.hasError = true) (h : (s.pollRead e failed).2 = false) :
    (s.pollRead e failed).1.conn.hasError = true := by
  unfold pollRead at h ⊢
  split at h
  · next hfail =>
    rw [if_pos hfail]
    exact hfailed hfail
  · next hfail =>
    rw [if_neg hfail]
    split at h
    · next hin =>
      rw [if_pos hin]
      exact hasError_inRead s h
    · cases h

/-- A thread that leaves `poll` could as well have left it before it read. -/
theorem Reads.leavePoll (h : Reads s u) (t : τ) :
    Reads (s.endWrite.endRead.setPc t .idle) (u.endWrite.endRead.setPc t .idle) where
  reading := congrArg (· - 1) h.reading
  readers := h.readers
  out := congrArg (fun out : XcbOut => { out with writing := out.writing - 1 }) h.out
  hasError := h.hasError
  threads := congrArg (fun threads : τ → Pc => Function.update threads t Pc.idle) h.threads
  socket := h.socket
  requests := h.requests
  handoffs := h.handoffs
  log := h.log

/-- Thread `t` has read, and is now out of its call, waiting or polling. -/
structure Serves (t : τ) (s u : System τ β) : Prop where
  out : u.conn.out = s.conn.out
  hasError : s.conn.hasError = true → u.conn.hasError = true
  threads : ∀ v, v ≠ t → u.threads v = s.threads v
  pc : (u.threads t).isReader = true
  socket : u.socket = s.socket
  requests : u.requests = s.requests
  handoffs : u.handoffs = s.handoffs
  log : ∃ new, u.log = s.log ++ new ∧ ∀ entry ∈ new, entry.isRead = true

omit [DecidableEq τ] in
theorem Serves.of_reads {t : τ} (h : Reads s u) (h' : Serves t u v) : Serves t s v where
  out := h'.out.trans h.out
  hasError := h'.hasError ∘ h.hasError
  threads := fun w hw => (h'.threads w hw).trans (by rw [h.threads])
  pc := h'.pc
  socket := h'.socket.trans h.socket
  requests := h'.requests.trans h.requests
  handoffs := h'.handoffs.trans h.handoffs
  log := h.log ▸ h'.log

omit [DecidableEq τ] in
/-- Only the input half changes. -/
theorem Serves.of_setInp {t : τ} {inp : XcbIn τ β} (h : Serves t (s.setInp inp) u) :
    Serves t s u :=
  ⟨h.out, h.hasError, h.threads, h.pc, h.socket, h.requests, h.handoffs, h.log⟩

section serves

variable (s : System τ β) (e : Env τ β) (t : τ) (request : BitVec 32)

theorem Serves.setPc {pc : Pc} (h : pc.isReader = true) : Serves t s (s.setPc t pc) where
  out := rfl
  hasError := id
  threads := fun v hv => threads_setPc_of_ne s hv pc
  pc := by simpa using h
  socket := rfl
  requests := rfl
  handoffs := rfl
  log := ⟨[], (List.append_nil _).symm, nofun⟩

theorem Serves.leave {entry : Entry β} (h : entry.isRead = true) : Serves t s (s.leave t entry) :=
  { Serves.setPc s t (show Pc.idle.isReader = true from rfl) with
    log := ⟨[entry], rfl, fun _ hmem => by rw [List.mem_singleton.mp hmem]; exact h⟩ }

theorem serves_waitRead (waiter : Waiter) : Serves t s (s.waitRead t waiter) := by
  unfold waitRead
  split
  · exact { Serves.setPc s t (show (Pc.awaitReader waiter).isReader = true from rfl) with }
  · exact .of_setInp (.setPc _ t rfl)

theorem serves_leaveReply (reply : Option (Buffer β)) :
    Serves t s (s.leaveReply e t request reply) :=
  .of_setInp (.of_reads (reads_wakeUpNextReader _ e) (.leave _ t rfl))

theorem serves_waitReply : Serves t s (s.waitReply e t request) := by
  unfold waitReply
  dsimp only
  split
  · exact .of_setInp (serves_leaveReply _ e t request _)
  · exact .of_setInp (serves_waitRead _ t _)

theorem serves_startReply : Serves t s (s.startReply e t request) :=
  .of_setInp (serves_waitReply _ e t request)

theorem serves_leaveEvent (event : Option (Buffer β)) : Serves t s (s.leaveEvent e t event) :=
  .of_reads (reads_wakeUpNextReader s e) (.leave _ t rfl)

theorem serves_waitEvent : Serves t s (s.waitEvent e t) := by
  unfold waitEvent
  dsimp only
  split
  · exact .of_setInp (serves_leaveEvent _ e t _)
  · exact .of_setInp (serves_waitRead _ t _)

theorem serves_pollEvent : Serves t s (s.pollEvent e t) := by
  unfold pollEvent
  dsimp only
  split
  · exact .of_setInp (.leave _ t rfl)
  · have hread := reads_inRead (s.setInp s.conn.inp.getEvent.2) e
    split
    · exact .of_setInp (.of_reads hread (.of_setInp (.leave _ t rfl)))
    · exact .of_setInp (.of_reads hread (.leave _ t rfl))

theorem serves_afterRead (waiter : Waiter) (ret : Bool) :
    Serves t s (s.afterRead e t waiter ret) := by
  cases waiter <;> cases ret
  · exact serves_leaveReply s e t _ none
  · exact serves_waitReply s e t _
  · exact serves_leaveEvent s e t none
  · exact serves_waitEvent s e t

/-- What the thread did before does not matter. -/
theorem Serves.of_setPc {pc : Pc} (h : Serves t (s.setPc t pc) u) : Serves t s u :=
  { h with threads := fun v hv => (h.threads v hv).trans (threads_setPc_of_ne s hv pc) }

theorem serves_finishRead (failed : Bool) (waiter : Waiter) :
    Serves t s (s.finishRead e t failed waiter) :=
  .of_reads (reads_pollRead s e failed)
    (.of_setInp (.of_setPc _ t (serves_afterRead _ e t waiter _)))

theorem serves_pollForReply : Serves t s ((s.setInp (s.conn.inp.pollForReply request).2).leave t
    (.polled request (s.conn.inp.pollForReply request).1)) :=
  .of_setInp (.leave _ t rfl)

theorem serves_discardReply : Serves t s ((s.setInp (s.conn.inp.discardReply s.conn.out.request
    request)).leave t (.discarded request)) :=
  .of_setInp (.leave _ t rfl)

end serves

end System

end Xcb
