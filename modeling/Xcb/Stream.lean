import Xcb.Streaming
import Xcb.Words

/-!
# What threads write, and what they flush

The two results about runs without handoffs: the bytes written, the rest of a vector and the queue
are the requests, and what was flushed is written. Both fail at the ends of the number range. When
two `GetInputFocus` fall due at once, two are numbered and one is written. And a thread that waits
in `_xcb_out_flush_to` compares numbers when it goes on, which is wrong once `2 ^ 63` more have been
given.

## Main definitions

* `System.Streamed` — the stream is the requests
* `System.FlushMeansWritten` — what `xcb_flush` promises

## Main results

* `System.streamed_of_reach`, `System.flushMeansWritten_of_reach` — the two results
* `System.not_streamed_words`, `System.not_flushMeansWritten_words` — runs in which they fail
-/

namespace Xcb

variable {τ β : Type}

/-- One reply to each of the first `k` requests has been read, and nothing else. -/
structure XcbIn.Replied (k : ℕ) (c : XcbIn τ β) : Prop where
  requestRead : c.requestRead = BitVec.ofNat 64 k
  requestCompleted : c.requestCompleted = BitVec.ofNat 64 (k - 1)
  events : c.events = []

/-- What a thread that writes has still to write. -/
def Pc.unsent : Pc → Option (List Iovec)
  | .awaitWriter _ vector | .pollOut _ _ vector => some vector
  | _ => none

namespace System

/-- Written, still to be written by a thread, or in the queue: these are the requests. -/
structure Streamed (size : ℕ) (s : System τ β) : Prop where
  fits : s.conn.out.queueLen ≤ size
  writing : s.conn.hasError = false → ∀ t vector, (s.threads t).unsent = some vector →
    s.socket ++ gather s.conn.out.queue vector ++ s.conn.out.queued = s.requests.flatten
  quiet : s.conn.hasError = false → (∀ t, (s.threads t).unsent = none) →
    s.socket ++ s.conn.out.queued = s.requests.flatten

/-- Which request `request_written` is the number of. -/
def written (s : System τ β) : ℕ :=
  s.requests.length - (s.conn.out.request - s.conn.out.requestWritten).toNat

/-- What `xcb_flush` promises: requests that are not written are in the queue or on their way, those
up to `request_written` have been handed to the socket, and the log holds no other result. -/
structure FlushMeansWritten (s : System τ β) : Prop where
  request : s.conn.out.request = BitVec.ofNat 64 s.requests.length
  requestWritten : s.conn.out.requestWritten = BitVec.ofNat 64 s.written
  pending : s.conn.hasError = false → s.written < s.requests.length →
    0 < s.conn.out.queueLen ∨ 0 < s.conn.out.writing
  handed : s.conn.hasError = false → s.Handed s.written
  log : ∀ entry ∈ s.log, s.Accounts entry

variable {s u : System τ β} {p : Prop} {size n : ℕ} [DecidableEq τ] [Fintype τ]

/-! ### What the invariant says -/

omit [DecidableEq τ] [Fintype τ] in
theorem Settled.streamed (h : Settled p size s) : s.Streamed size := by
  obtain ⟨phase, hheld, hs⟩ := h
  refine ⟨hs.fits.trans_eq hs.queue, fun herror t vector ht => ?_, fun herror hnone => ?_⟩
  · have hpc := hs.pcs t
    have hphase : phase = .poll t vector := by
      cases hthread : s.threads t with
      | awaitWriter sender vector' =>
        rw [hthread] at hpc
        exact hpc.elim
      | pollOut failed sender vector' =>
        rw [hthread] at ht
        cases ht
        exact (hs.pollers t failed sender vector hthread).1
      | _ =>
        rw [hthread] at ht
        cases ht
    have hstream := hs.stream herror
    rwa [hphase, WritePhase.vector] at hstream
  · have hphase : phase = .quiet := by
      cases hcase : phase with
      | quiet => rfl
      | poll t vector =>
        obtain ⟨failed, sender, ht⟩ := hs.polling t vector hcase
        have := hnone t
        rw [ht] at this
        cases this
      | held vector => exact absurd hcase (hheld vector)
    have hstream := hs.stream herror
    rwa [hphase, WritePhase.vector, gather_nil, List.append_nil] at hstream

omit [DecidableEq τ] [Fintype τ] in
theorem Settled.flushMeansWritten (h : Settled True size s) (hsize : size < 2 ^ 31) :
    s.FlushMeansWritten := by
  obtain ⟨phase, hheld, hs⟩ := h
  obtain ⟨written, hc⟩ := hs.counted trivial
  have hle := hc.written_le
  have hgap := hc.gap
  have hwritten : s.written = written := by
    rw [System.written, hc.request, hc.requestWritten, toNat_ofNat_sub hle (by omega)]
    omega
  refine ⟨hc.request, by rw [hwritten, hc.requestWritten], fun _ hlt => ?_, fun herror => ?_,
    hc.log⟩
  · rw [hwritten] at hlt
    cases hphase : phase with
    | quiet =>
      have hquiet := hc.quiet hphase
      exact .inl (by omega)
    | poll t vector =>
      right
      rw [hs.writing, hphase]
      exact Nat.one_pos
    | held vector => exact absurd hphase (hheld vector)
  · rw [hwritten]
    exact hc.handed herror

/-! ### One word after the other -/

section words

/-- A thread sends an ordinary request, or flushes, or goes on. -/
def Action.Writes : Action τ β → Prop
  | .call _ (.send request) => request.Ordinary True
  | .call _ .flush | .run _ _ => True
  | _ => False

omit [DecidableEq τ] [Fintype τ] in
theorem Action.Writes.ordinary {a : Action τ β} (h : a.Writes) : a.Ordinary True := by
  cases a with
  | call t call => cases call <;> first | exact h | trivial
  | _ => trivial

/-- Everything that can be written is written, and nothing is read. -/
def prompt : Env (Fin 2) Unit := { stalled with pollout := true, writev := .wrote 4 }

/-- After `n` requests of one word each, `m` of them written; nothing was read, and nobody waits. -/
structure Busy (threads : Fin 2 → Pc) (n m writing queueLen : ℕ) (expected : BitVec 64)
    (s : System (Fin 2) Unit) : Prop where
  threads : s.threads = threads
  hasError : s.conn.hasError = false
  maximum : s.conn.setupMaximumRequestLength = 65535#16
  returnSocket : s.conn.out.returnSocket = none
  writing : s.conn.out.writing = writing
  queueLen : s.conn.out.queueLen = queueLen
  queue : s.conn.out.queue.length = 16384
  request : s.conn.out.request = BitVec.ofNat 64 n
  requestWritten : s.conn.out.requestWritten = BitVec.ofNat 64 m
  requestExpected : s.conn.inp.requestExpected = expected
  length : s.requests.length = n
  bytes : s.requests.flatten.length = 4 * n
  socket : s.socket.length = 4 * m
  replied : s.conn.inp.Replied 0
  readers : s.conn.inp.readers = []

variable {s : System (Fin 2) Unit} {threads : Fin 2 → Pc} {n m : ℕ} {expected : BitVec 64}
  {t : Fin 2}

theorem busy_init : Busy (fun _ => .idle) 0 0 0 0 0 (init 16384 65535) :=
  ⟨rfl, rfl, rfl, rfl, rfl, rfl, List.length_replicate, rfl, rfl, rfl, rfl, rfl, rfl,
    ⟨rfl, rfl, rfl⟩, rfl⟩

theorem numberRequest_init (isvoid : Bool) :
    ((init 16384 65535 : System (Fin 2) Unit).conn.numberRequest (wordRequest isvoid)).2 = 0 := by
  cases isvoid <;> decide

omit [DecidableEq τ] [Fintype τ] in
theorem hasError_loseEntries_of_memory (c : XcbConnection τ β) (old : ℕ) :
    (c.loseEntries old fun _ => false).hasError = c.hasError := by
  simp [XcbConnection.loseEntries]

theorem writeBlock_snd_of_le {o : XcbOut} {parts : List (List UInt8)}
    (h : o.queueLen + parts.flatten.length ≤ o.queue.length) : (o.writeBlock parts).2 = [] := by
  induction parts generalizing o with
  | nil => rfl
  | cons part parts ih =>
    rw [List.flatten_cons, List.length_append] at h
    have hroom : o.queueLen + part.length ≤ o.queue.length := by omega
    rw [XcbOut.writeBlock, if_pos hroom]
    refine ih ?_
    rw [length_queue_append hroom]
    show o.queueLen + part.length + parts.flatten.length ≤ o.queue.length
    omega

theorem Busy.setPc {writing queueLen : ℕ} (h : Busy threads n m writing queueLen expected s)
    (t : Fin 2) (pc : Pc) :
    Busy (Function.update threads t pc) n m writing queueLen expected (s.setPc t pc) :=
  { h with threads := by rw [← h.threads]; rfl }

/-- One word more, and what `GetInputFocus` is put before it. -/
theorem Busy.sendRequest (h : Busy threads n m 0 0 expected s) (t : Fin 2) (isvoid : Bool)
    {count : ℕ}
    (hcount : (s.conn.numberRequest (wordRequest isvoid)).2 = count) :
    Busy (Function.update threads t .idle) (n + (count + 1)) m 0 (if count = 0 then 4 else 8)
      (if isvoid = false then BitVec.ofNat 64 (n + (count + 1))
        else if count = 0 then expected else BitVec.ofNat 64 (n + count))
      (s.sendRequest prompt t (wordRequest isvoid)) := by
  set w := s.note (.numbered s.conn.out.writing s.conn.out.returnSocket.isSome) with hw
  have hout := out_numberRequest w prompt (wordRequest isvoid)
  have hrequests := requests_numberRequest w prompt (wordRequest isvoid)
  rw [show w.conn = s.conn from rfl, hcount] at hout hrequests
  set u := w.numberRequest prompt (wordRequest isvoid) with hu
  have hparts : ((wordRequest isvoid).vector (count ≠ 0)).flatten.length =
      if count = 0 then 4 else 8 := by
    rw [flatten_vector, List.length_append, length_encoding_wordRequest]
    by_cases hzero : count = 0 <;> simp [hzero, syncReq]
  have hnil : (u.conn.out.writeBlock ((wordRequest isvoid).vector (count ≠ 0))).2 = [] := by
    refine writeBlock_snd_of_le ?_
    rw [hparts, hout]
    show s.conn.out.queueLen + _ ≤ s.conn.out.queue.length
    rw [h.queueLen, h.queue]
    split <;> omega
  have hsend : s.sendRequest prompt t (wordRequest isvoid) =
      (u.setOut (u.conn.out.writeBlock ((wordRequest isvoid).vector (count ≠ 0))).1).leave t
        (.sent (low32 u.conn.out.request) u.requests.length) := by
    rw [← hcount]
    exact if_pos (by rw [← hcount] at hnil; exact hnil)
  obtain ⟨queue, queueLen, heq⟩ :=
    out_writeBlock_eq u.conn.out ((wordRequest isvoid).vector (count ≠ 0))
  have hlen := queueLen_writeBlock_of_nil hnil
  have hqueue := length_queue_writeBlock u.conn.out ((wordRequest isvoid).vector (count ≠ 0))
  rw [hsend]
  refine ⟨?_, ?_, ?_, ?_, ?_, ?_, ?_, ?_, ?_, ?_, ?_, ?_, ?_, ⟨?_, ?_, ?_⟩, ?_⟩
  · show Function.update s.threads t .idle = _
    rw [h.threads]
  · show ((s.conn.numberRequest (wordRequest isvoid)).1.loseEntries _ fun _ => false).hasError =
      false
    rw [hasError_loseEntries_of_memory, numberRequest_fst]
    exact h.hasError
  · show ((s.conn.numberRequest (wordRequest isvoid)).1).setupMaximumRequestLength = _
    rw [numberRequest_fst]
    exact h.maximum
  · show (u.conn.out.writeBlock _).1.returnSocket = none
    rw [heq, hout]
    exact h.returnSocket
  · show (u.conn.out.writeBlock _).1.writing = 0
    rw [heq, hout]
    exact h.writing
  · show (u.conn.out.writeBlock _).1.queueLen = _
    rw [hlen, hparts, hout]
    show s.conn.out.queueLen + _ = _
    rw [h.queueLen, Nat.zero_add]
  · show (u.conn.out.writeBlock _).1.queue.length = _
    rw [hqueue, hout]
    exact h.queue
  · show (u.conn.out.writeBlock _).1.request = _
    rw [heq, hout]
    show s.conn.out.request + _ = _
    rw [h.request, ← BitVec.ofNat_add]
  · show (u.conn.out.writeBlock _).1.requestWritten = _
    rw [heq, hout]
    exact h.requestWritten
  · show ((s.conn.numberRequest (wordRequest isvoid)).1).inp.requestExpected = _
    rw [numberRequest_fst, hcount]
    dsimp only
    rw [h.request, h.requestExpected, ← BitVec.ofNat_add, ← BitVec.ofNat_add]
    rfl
  · show u.requests.length = _
    rw [hrequests, List.length_append, List.length_append, List.length_replicate,
      List.length_singleton]
    exact congrArg (· + (count + 1)) h.length
  · show u.requests.flatten.length = _
    rw [hrequests, List.flatten_append, List.length_append]
    show s.requests.flatten.length + _ = _
    rw [h.bytes, List.flatten_append, List.length_append, List.flatten_singleton,
      length_encoding_wordRequest]
    simp [syncReq]
    omega
  · exact h.socket
  · show (s.conn.numberRequest (wordRequest isvoid)).1.inp.requestRead = _
    rw [numberRequest_fst]
    exact h.replied.requestRead
  · show (s.conn.numberRequest (wordRequest isvoid)).1.inp.requestCompleted = _
    rw [numberRequest_fst]
    exact h.replied.requestCompleted
  · show (s.conn.numberRequest (wordRequest isvoid)).1.inp.events = _
    rw [numberRequest_fst]
    exact h.replied.events
  · show (s.conn.numberRequest (wordRequest isvoid)).1.inp.readers = _
    rw [numberRequest_fst]
    exact h.readers

theorem ordinary_wordCall (p : Prop) (isvoid : Bool) : (wordCall isvoid).Ordinary p := by
  refine ⟨fun part hpart => ?_,
    fun _ => ⟨.bytes [0, 0, 0, 0], List.mem_singleton_self _, by decide⟩⟩
  rw [List.mem_singleton.mp hpart]
  decide

/-- A thread with a request gets the lock when it can go on at once. -/
theorem step_run_send {s : System (Fin 2) Unit} {e : Env (Fin 2) Unit}
    (hwriting : s.conn.out.writing = 0) (hreturn : s.conn.out.returnSocket = none) (t : Fin 2)
    (req : PreparedRequest) : (s.setPc t (.lock (.send req))).step (.run t e) =
      some (((s.setPc t (.lock (.send req))).setPc t .idle).sendRequest e t req) := by
  simp [System.step, System.run, start, awaitTurn, getSocketBack, afterSocket, System.setPc,
    hwriting,
    hreturn]

/-- A thread calls `xcb_send_request`. -/
theorem Busy.send (h : Busy threads n m 0 0 expected s) (ht : threads t = .idle) (isvoid : Bool)
    {count : ℕ} (hcount : (s.conn.numberRequest (wordRequest isvoid)).2 = count) :
    ∃ u, Transition.Reach System.step (fun _ a => a.Writes) s u ∧
      Busy threads (n + (count + 1)) m 0 (if count = 0 then 4 else 8)
        (if isvoid = false then BitVec.ofNat 64 (n + (count + 1))
          else if count = 0 then expected else BitVec.ofNat 64 (n + count)) u := by
  have hidle : s.threads t = .idle := by rw [h.threads, ht]
  have hword : (Action.call t (.send (wordCall isvoid)) : Action (Fin 2) Unit).Writes :=
    ordinary_wordCall True isvoid
  have hcall : s.step (.call t (.send (wordCall isvoid))) =
      some (s.setPc t (.lock (.send (wordRequest isvoid)))) := by
    simp [System.step, System.call, hidle, MayCall, h.hasError, enter, h.maximum, prepare_wordCall]
  have hrun := step_run_send (s := s) (e := prompt) h.writing h.returnSocket t (wordRequest isvoid)
  have hlock : (Action.run t prompt).Writes := trivial
  refine ⟨_, .tail (.single hword hcall) hlock hrun, ?_⟩
  have hsend :=
    ((h.setPc t (.lock (.send (wordRequest isvoid)))).setPc t .idle).sendRequest t isvoid hcount
  have hthreads : Function.update threads t .idle = threads := by rw [← ht, Function.update_eq_self]
  rwa [Function.update_idem, Function.update_idem, hthreads] at hsend


/-- A thread calls `xcb_flush`. -/
theorem reach_flush (hidle : s.threads t = .idle) (herror : s.conn.hasError = false) :
    Transition.Reach System.step (fun _ a => a.Writes) s
      (((s.setPc t (.lock .flush)).setPc t .idle).flushTo prompt t (.flush s.requests.length)
        s.conn.out.request) := by
  have hcall : s.step (.call t .flush) = some (s.setPc t (.lock .flush)) := by
    simp [System.step, System.call, hidle, MayCall, herror, enter]
  have hrun : (s.setPc t (.lock .flush)).step (.run t prompt) =
      some (((s.setPc t (.lock .flush)).setPc t .idle).flushTo prompt t (.flush s.requests.length)
        s.conn.out.request) := by
    simp [System.step, System.run, start, System.setPc]
  have hflush : (Action.call t .flush : Action (Fin 2) Unit).Writes := trivial
  have hlock : (Action.run t prompt).Writes := trivial
  exact .tail (.single hflush hcall) hlock hrun

/-- The vector of a thread that writes a word from the queue. -/
def wordVector : List Iovec := [⟨.queue, 0, 4⟩]

/-- A thread begins to write the last word. -/
theorem Busy.startFlush (h : Busy threads (n + 1) n 0 4 expected s) (ht : threads t = .idle) :
    ∃ u, Transition.Reach System.step (fun _ a => a.Writes) s u ∧
      Busy (Function.update threads t (.pollOut false (.flusher (.flush (n + 1))) wordVector))
        (n + 1) n 1 0 expected u := by
  refine ⟨_, reach_flush (by rw [h.threads, ht]) h.hasError, ?_⟩
  have hbehind : ¬ sequenceCompare s.conn.out.requestWritten s.conn.out.request ≥ 0 := by
    rw [h.request, h.requestWritten, sequenceCompare_ofNat (by omega) (by omega)]
    omega
  have hfull : s.conn.out.queueLen ≠ 0 := by rw [h.queueLen]; decide
  unfold System.flushTo
  dsimp only
  rw [if_neg (by exact hbehind), if_pos (by exact hfull), System.outSend,
    if_pos ⟨rfl, List.cons_ne_nil _ _⟩, System.waitWrite, if_neg (by exact not_not.mpr h.writing)]
  refine ⟨?_, h.hasError, h.maximum, h.returnSocket, congrArg (· + 1) h.writing, rfl, h.queue,
    h.request, h.requestWritten, h.requestExpected, h.length, h.bytes, h.socket,
    ⟨h.replied.requestRead, h.replied.requestCompleted, h.replied.events⟩, h.readers⟩
  show Function.update (Function.update (Function.update s.threads t _) t _) t
    (.pollOut false (.flusher (.flush s.requests.length)) [⟨.queue, 0, s.conn.out.queueLen⟩]) = _
  rw [h.threads, h.length, h.queueLen, Function.update_idem, Function.update_idem]
  rfl

/-- A thread waits for the one that writes the last word. -/
theorem Busy.waitFlush (h : Busy threads (n + 1) n 1 0 expected s) (ht : threads t = .idle) :
    ∃ u, Transition.Reach System.step (fun _ a => a.Writes) s u ∧
      Busy (Function.update threads t (.awaitWritten (.flush (n + 1)) (BitVec.ofNat 64 (n + 1))
        (n + 1))) (n + 1) n 1 0 expected u := by
  refine ⟨_, reach_flush (by rw [h.threads, ht]) h.hasError, ?_⟩
  have hbehind : ¬ sequenceCompare s.conn.out.requestWritten s.conn.out.request ≥ 0 := by
    rw [h.request, h.requestWritten, sequenceCompare_ofNat (by omega) (by omega)]
    omega
  have hempty : ¬ s.conn.out.queueLen ≠ 0 := by rw [h.queueLen]; decide
  have hwriting : s.conn.out.writing ≠ 0 := by rw [h.writing]; decide
  unfold System.flushTo
  dsimp only
  rw [if_neg (by exact hbehind), if_neg (by exact hempty), System.awaitWritten,
    if_pos (by exact hwriting)]
  refine ⟨?_, h.hasError, h.maximum, h.returnSocket, h.writing, h.queueLen, h.queue,
    h.request, h.requestWritten, h.requestExpected, h.length, h.bytes, h.socket,
    ⟨h.replied.requestRead, h.replied.requestCompleted, h.replied.events⟩, h.readers⟩
  show Function.update (Function.update (Function.update s.threads t _) t _) t
    (.awaitWritten (.flush s.requests.length) s.conn.out.request
      (s.requests.length - (s.conn.out.request - s.conn.out.request).toNat)) = _
  rw [h.threads, h.length, h.request, BitVec.sub_self, Function.update_idem, Function.update_idem]
  rfl

/-- A thread writes the last word. -/
theorem Busy.endFlush (h : Busy threads (n + 1) n 1 0 expected s)
    (ht : threads t = .pollOut false (.flusher (.flush (n + 1))) wordVector) :
    ∃ u, Transition.Reach System.step (fun _ a => a.Writes) s u ∧
      Busy (Function.update threads t .idle) (n + 1) (n + 1) 0 0 expected u := by
  have hgather : (gather s.conn.out.queue wordVector).length = 4 := by
    simp [gather, wordVector, Iovec.bytes, h.queue]
  have hrun : s.step (.run t prompt) =
      some (s.finishWrite prompt t false (.flusher (.flush (n + 1))) wordVector) := by
    have hvalid : prompt.writev.Valid (gather s.conn.out.queue wordVector).length := by
      rw [hgather]
      decide
    simp only [System.step, System.run, h.threads, ht, if_pos hvalid]
  have hlock : (Action.run t prompt).Writes := trivial
  refine ⟨_, .single hlock hrun, ?_⟩
  set v := (((s.writeVec wordVector (.wrote 4)).1.endWrite.endRead.setPc t .idle).setOut
    { (s.writeVec wordVector (.wrote 4)).1.endWrite.conn.out with
      requestWritten := s.conn.out.request }) with hv
  have hfinish : s.finishWrite prompt t false (.flusher (.flush (n + 1))) wordVector =
      (v.wakeUpNextReader prompt).leave t (.flushed (n + 1) true) := rfl
  have hreads := reads_wakeUpNextReader v prompt
  have hconn : (v.wakeUpNextReader prompt).conn = v.conn := conn_signal v _ _
  rw [hfinish]
  refine ⟨?_, ?_, ?_, ?_, ?_, ?_, ?_, ?_, ?_, ?_, ?_, ?_, ?_, ⟨?_, ?_, ?_⟩, ?_⟩
  · show Function.update (v.wakeUpNextReader prompt).threads t .idle = _
    rw [hreads.threads]
    show Function.update (Function.update s.threads t .idle) t .idle = _
    rw [h.threads, Function.update_idem]
  · exact (congrArg XcbConnection.hasError hconn).trans h.hasError
  · exact (congrArg XcbConnection.setupMaximumRequestLength hconn).trans h.maximum
  · exact (congrArg (·.out.returnSocket) hconn).trans h.returnSocket
  · refine (congrArg (·.out.writing) hconn).trans ?_
    show s.conn.out.writing - 1 = 0
    rw [h.writing]
  · exact (congrArg (·.out.queueLen) hconn).trans h.queueLen
  · exact (congrArg (·.out.queue.length) hconn).trans h.queue
  · exact (congrArg (·.out.request) hconn).trans h.request
  · exact (congrArg (·.out.requestWritten) hconn).trans h.request
  · exact (congrArg (·.inp.requestExpected) hconn).trans h.requestExpected
  · exact (congrArg List.length hreads.requests).trans h.length
  · exact (congrArg (·.flatten.length) hreads.requests).trans h.bytes
  · refine (congrArg List.length hreads.socket).trans ?_
    show (s.socket ++ (gather s.conn.out.queue wordVector).take 4).length = _
    rw [List.length_append, List.length_take, hgather, h.socket]
    omega
  · exact (congrArg (·.inp.requestRead) hconn).trans h.replied.requestRead
  · exact (congrArg (·.inp.requestCompleted) hconn).trans h.replied.requestCompleted
  · exact (congrArg (·.inp.events) hconn).trans h.replied.events
  · exact (congrArg (·.inp.readers) hconn).trans h.readers

/-- One word after the other, each of them written before the next. -/
theorem Busy.round (h : Busy threads n n 0 0 expected s) (ht : threads t = .idle) (isvoid : Bool)
    (hcount : (s.conn.numberRequest (wordRequest isvoid)).2 = 0) :
    ∃ u, Transition.Reach System.step (fun _ a => a.Writes) s u ∧
      Busy threads (n + 1) (n + 1) 0 0
        (if isvoid = false then BitVec.ofNat 64 (n + 1) else expected) u := by
  obtain ⟨v, hsv, hv⟩ := h.send ht isvoid hcount
  obtain ⟨w, hvw, hw⟩ := hv.startFlush ht
  obtain ⟨u, hwu, hu⟩ := hw.endFlush (Function.update_self _ _ _)
  refine ⟨u, (hsv.trans hvw).trans hwu, ?_⟩
  have hthreads : Function.update threads t .idle = threads := by rw [← ht, Function.update_eq_self]
  rwa [Function.update_idem, hthreads] at hu

/-- Requests that are answered need no `GetInputFocus`, short of number `0`. -/
theorem Busy.reach_nonvoid (h : Busy threads n n 0 0 (BitVec.ofNat 64 n) s) (ht : threads t = .idle)
    {k : ℕ} (hk : n + k < 2 ^ 64) :
    ∃ u, Transition.Reach System.step (fun _ a => a.Writes) s u ∧
      Busy threads (n + k) (n + k) 0 0 (BitVec.ofNat 64 (n + k)) u := by
  refine Transition.Reach.iterate
    (P := fun j u => Busy threads (n + j) (n + j) 0 0 (BitVec.ofNat 64 (n + j)) u)
    (fun j hj v hv => ?_) h
  refine hv.round ht false ((numberRequest_snd_eq_zero_iff _ _).mpr ?_)
  have hne : BitVec.ofNat 64 (n + j) + 1#64 ≠ 0 := by
    rw [show (1#64) = BitVec.ofNat 64 1 from rfl, ← BitVec.ofNat_add]
    bv_omega
  simpa [XcbConnection.needsSync, XcbConnection.nextRequest, hv.request, wordRequest] using hne

/-- After it come up to 65534 that are not. -/
theorem Busy.reach_void {first : ℕ} (h : Busy threads n n 0 0 (BitVec.ofNat 64 first) s)
    (ht : threads t = .idle) (hle : first ≤ n) {k : ℕ} (hroom : n + k ≤ first + 65534)
    (hk : n + k < 2 ^ 64) :
    ∃ u, Transition.Reach System.step (fun _ a => a.Writes) s u ∧
      Busy threads (n + k) (n + k) 0 0 (BitVec.ofNat 64 first) u := by
  refine Transition.Reach.iterate
    (P := fun j u => Busy threads (n + j) (n + j) 0 0 (BitVec.ofNat 64 first) u)
    (fun j hj v hv => ?_) h
  refine hv.round ht true ((numberRequest_snd_eq_zero_iff _ _).mpr ?_)
  have hnext : BitVec.ofNat 64 (n + j) + 1#64 = BitVec.ofNat 64 (n + j + 1) := by
    rw [BitVec.ofNat_add (n + j)]
  have hzero : BitVec.ofNat 64 (n + j + 1) ≠ 0#64 := by bv_omega
  have hdue : BitVec.ofNat 64 (n + j + 1) ≠ BitVec.ofNat 64 (first + 65535) := by bv_omega
  simp [XcbConnection.needsSync, XcbConnection.nextRequest, hv.request, hv.requestExpected,
    wordRequest, Session.ofNat_add_window, hnext, hzero, hdue]


/-- Everything can be written, and this many bytes are. -/
def takes (n : ℕ) : Env (Fin 3) Unit where
  pollin := false
  pollout := true
  recv := ⟨[], none, false⟩
  writev := .wrote n
  noMemory := fun _ => false
  order := [0, 1, 2]
  complete := mem_range_three

/-- Threads 0 and 1 queue a word each. Thread 0 flushes both, four bytes at a time; thread 1, which
also flushes, waits for that, and thread 2 waits for its turn to send another word. -/
def flushTogether : List (Action (Fin 3) Unit) :=
  [.call 0 (.send (wordCall true)), .run 0 (takes 0), .call 1 (.send (wordCall true)),
    .run 1 (takes 0), .call 0 .flush, .run 0 (takes 0), .call 1 .flush, .run 1 (takes 0),
    .call 2 (.send (wordCall true)), .run 2 (takes 0), .run 0 (takes 4), .run 1 (takes 0),
    .run 0 (takes 4), .run 1 (takes 0), .run 2 (takes 0)]

/-- Has `xcb_flush` returned 1? -/
def hasFlushed : Entry β → Bool
  | .flushed _ ret => ret
  | _ => false

end words

/-! ### The results -/

/-- **The output stream is the requests**, without handoffs, as long as no thread inserts two
`GetInputFocus`. -/
theorem streamed_of_reach {maximum : BitVec 16} (hsize : size < 2 ^ 31)
    (h : Transition.Reach System.step (fun s a => a.Ordinary False ∧ s.Singly a)
      (System.init size maximum) s) : s.Streamed size := by
  have hsettled : s.Bounded ∧ Settled False size s := by
    refine h.invariant (P := fun s => s.Bounded ∧ Settled False size s)
      (fun s a u hs hok hstep => ?_)
      ⟨fun _ => Nat.le_refl 0, settled_init _ _ _⟩
    exact ⟨(follows_step hs.1 hstep).bounded hs.1,
      settled_step hsize hs.1 hs.2 hok.1 hok.2 False.elim hstep⟩
  exact hsettled.2.streamed

/-- Two words are written in two pieces, and the third one is in the queue. -/
theorem streamed_flushTogether :
    ∃ s : System (Fin 3) Unit, flushTogether.foldlM System.step (init 16384 65535) = some s ∧
      (s.socket.length, s.conn.out.queueLen) = (8, 4) ∧ s.Streamed 16384 := by
  have hrun : (flushTogether.foldlM (Transition.checked System.step
      fun s a => a.Ordinary False ∧ s.Singly a) (init 16384 65535)).map (fun s =>
        (s.socket.length, s.conn.out.queueLen)) = some (8, 4) := by
    decide +kernel
  obtain ⟨s, hs, hbytes⟩ := Option.map_eq_some_iff.mp hrun
  exact ⟨s, Transition.foldlM_of_checked hs, hbytes,
    streamed_of_reach (by norm_num) (.of_checked hs)⟩

/-- Two `GetInputFocus` fall due at once, and one of them is missing. -/
theorem not_streamed_words :
    ∃ s : System (Fin 2) Unit,
      Transition.Reach System.step (fun _ a => a.Ordinary True) (init 16384 65535) s ∧
        s.conn.hasError = false ∧ ¬ s.Streamed 16384 := by
  obtain ⟨v, hv, hbusy⟩ := busy_init.reach_nonvoid (t := 0) rfl
    (show 0 + (2 ^ 64 - 65536) < 2 ^ 64 by norm_num)
  obtain ⟨w, hw, hfull⟩ := hbusy.reach_void (t := 0) rfl (Nat.le_refl _)
    (show 0 + (2 ^ 64 - 65536) + 65534 ≤ _ by omega) (by norm_num)
  have hdouble : w.conn.DoubleSync true := by
    refine ⟨rfl, ?_, ?_⟩
    · rw [hfull.request]
      rfl
    · rw [hfull.requestExpected]
      rfl
  obtain ⟨s, hs, hlast⟩ := hfull.send (t := 0) rfl true (numberRequest_snd_of_doubleSync hdouble)
  refine ⟨s, ((hv.trans hw).trans hs).mono fun _ _ h => h.ordinary, hlast.hasError,
    fun hstreamed => ?_⟩
  have hquiet := hstreamed.quiet hlast.hasError fun t => by rw [hlast.threads]; rfl
  have hlength := congrArg List.length hquiet
  rw [List.length_append, hlast.socket, hlast.bytes, XcbOut.queued, List.length_take,
    hlast.queueLen, hlast.queue] at hlength
  norm_num at hlength

/-- **Flush means written**, without handoffs, as long as no thread inserts two `GetInputFocus` and
a thread that waits for another one to write goes on in time. -/
theorem flushMeansWritten_of_reach {maximum : BitVec 16} (hsize : size < 2 ^ 31)
    (h : Transition.Reach System.step (fun s a => a.Ordinary True ∧ s.Singly a ∧ s.InTime a)
      (System.init size maximum) s) : s.FlushMeansWritten := by
  have hsettled : s.Bounded ∧ Settled True size s := by
    refine h.invariant (P := fun s => s.Bounded ∧ Settled True size s)
      (fun s a u hs hok hstep => ?_)
      ⟨fun _ => Nat.le_refl 0, settled_init _ _ _⟩
    exact ⟨(follows_step hs.1 hstep).bounded hs.1,
      settled_step hsize hs.1 hs.2 hok.1 hok.2.1 (fun _ => hok.2.2) hstep⟩
  exact hsettled.2.flushMeansWritten hsize

/-- The thread that writes and the one that waits for it are both told that they have flushed. -/
theorem flushMeansWritten_flushTogether :
    ∃ s : System (Fin 3) Unit, flushTogether.foldlM System.step (init 16384 65535) = some s ∧
      (s.log.filter hasFlushed).length = 2 ∧ s.FlushMeansWritten := by
  have hrun : (flushTogether.foldlM (Transition.checked System.step
      fun s a => a.Ordinary True ∧ s.Singly a ∧ s.InTime a) (init 16384 65535)).map (fun s =>
        (s.log.filter hasFlushed).length) = some 2 := by
    decide +kernel
  obtain ⟨s, hs, hflushed⟩ := Option.map_eq_some_iff.mp hrun
  exact ⟨s, Transition.foldlM_of_checked hs, hflushed,
    flushMeansWritten_of_reach (show 16384 < 2 ^ 31 by norm_num) (.of_checked hs)⟩

/-- Thread 1 writes the first request, and thread 0 waits for that. When it goes on, `2 ^ 63` more
have been numbered and written. -/
theorem not_flushMeansWritten_words :
    ∃ s : System (Fin 2) Unit,
      Transition.Reach System.step (fun _ a => a.Ordinary True) (init 16384 65535) s ∧
        s.conn.hasError = false ∧ ¬ s.FlushMeansWritten := by
  obtain ⟨s₁, hs₁, hsent⟩ := busy_init.send (t := 1) rfl false (numberRequest_init false)
  obtain ⟨s₂, hs₂, hstarted⟩ := hsent.startFlush (t := 1) rfl
  obtain ⟨s₃, hs₃, hwaiting⟩ := hstarted.waitFlush (t := 0) rfl
  obtain ⟨s₄, hs₄, hwritten⟩ := hwaiting.endFlush (t := 1) rfl
  obtain ⟨s₅, hs₅, hmore⟩ := hwritten.reach_nonvoid (t := 1) rfl
    (show 0 + 0 + 1 + 2 ^ 63 < 2 ^ 64 by norm_num)
  have hwaits : s₅.threads 0 = .awaitWritten (.flush 1) (BitVec.ofNat 64 1) 1 := by
    rw [hmore.threads]
    rfl
  have hdone : ¬ (s₅.setPc 0 .idle).conn.out.writing ≠ 0 := not_not.mpr hmore.writing
  have hrun : s₅.step (.run 0 prompt) = some (((s₅.setPc 0 .idle).check .flushToWritten
      (sequenceCompare s₅.conn.out.requestWritten (BitVec.ofNat 64 1) ≥ 0)).leave 0
        (.flushed 1 true)) := by
    simp only [System.step, System.run, hwaits]
    rw [System.awaitWritten, if_neg hdone]
    rfl
  have hlock : (Action.run 0 prompt).Ordinary True := trivial
  have hreach := ((((hs₁.trans hs₂).trans hs₃).trans hs₄).trans hs₅).mono fun _ _ h => h.ordinary
  refine ⟨_, hreach.tail hlock hrun, hmore.hasError, fun hflushed => ?_⟩
  have hassert := hflushed.log (.assertion .flushToWritten
    (decide (sequenceCompare s₅.conn.out.requestWritten (BitVec.ofNat 64 1) ≥ 0)))
    (List.mem_append_left _ (List.mem_append_right _ (List.mem_singleton_self _)))
  rw [Accounts, hmore.requestWritten] at hassert
  exact absurd hassert (by decide)

end System

end Xcb
