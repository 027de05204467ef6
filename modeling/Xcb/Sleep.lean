import Xcb.ReaderRole
import Xcb.TakeSocket

/-!
# Threads that sleep

A thread that has called `pthread_cond_wait` may go on at any time in `Xcb.Threads`, because the
wait may return without a signal. Here it is recorded, in addition, whether it *has to* return: a
thread falls asleep in `pthread_cond_wait` and is awake again once its condition variable is
broadcast.
`c->out.cond` is broadcast at the end of `_xcb_out_send`, and `c->out.socket_cond` when a
`return_socket` callback has returned. `c->out.cond` stands for three loops that wait until nobody
writes.

A wakeup would be lost if the last thread that writes could leave without a broadcast, or if a
thread could fall asleep when nobody writes any more. The readers' conditions are in
`Xcb.ReaderRole`.

## Main definitions

* `System.Stops` — where a stretch of code leaves a thread
* `System.Manned` — `writing` and `socket_moving` each stand for one thread
* `Vigil` — the connection, with a record of who sleeps

## Main results

* `System.stops_awaitTurn`, `System.stops_outSend` — one lemma for each function
* `Vigil.watched_of_reach` — no thread sleeps without another one that will wake it
* `Vigil.lively_of_reach` — the threads of a connection never all wait for each other
-/

namespace Xcb

variable {τ β : Type}

/-- The condition variables that are broadcast. -/
inductive Condition
  | out
  | socket
  deriving DecidableEq

/-- The condition variable on which a thread waits, other than as a reader. -/
def Pc.waitsOn : Pc → Option Condition
  | .awaitTurn _ | .awaitWriter _ _ | .awaitWritten _ _ _ => some .out
  | .awaitSocket _ => some .socket
  | _ => none

/-- Does the thread neither write nor own the socket's callback, and wait for neither? -/
def Pc.isAside : Pc → Bool
  | .idle | .lock _ | .awaitReader _ | .pollIn _ _ => true
  | _ => false

theorem Pc.of_isAside {pc : Pc} (h : pc.isAside = true) :
    pc.isPollOut = false ∧ pc.isCallback = false ∧ pc.waitsOn = none := by
  cases pc <;> first | exact ⟨rfl, rfl, rfl⟩ | cases h

theorem Pc.isAside_of_isReader {pc : Pc} (h : pc.isReader = true) : pc.isAside = true := by
  cases pc <;> first | rfl | cases h

/-! A thread with something to write, and one in the callback, are in one place each. -/

theorem Pc.exists_of_isPollOut {pc : Pc} (h : pc.isPollOut = true) :
    ∃ failed sender vector, pc = .pollOut failed sender vector := by
  cases pc with
  | pollOut failed sender vector => exact ⟨failed, sender, vector, rfl⟩
  | _ => cases h

theorem Pc.exists_of_isCallback {pc : Pc} (h : pc.isCallback = true) :
    ∃ taker, pc = .callback taker := by
  cases pc with
  | callback taker => exact ⟨taker, rfl⟩
  | _ => cases h

theorem Pc.writing_eq (pc : Pc) : pc.writing = if pc.isPollOut then 1 else 0 := by
  cases pc <;> rfl

theorem Pc.of_waitsOn {pc : Pc} {c : Condition} (h : pc.waitsOn = some c) :
    pc.isPollOut = false ∧ pc.isCallback = false := by
  cases pc <;> first | exact ⟨rfl, rfl⟩ | cases h

/-- Where a stretch of code may leave a thread, from what it finds in `c->out.writing` and
`c->out.socket_moving` to what it leaves there. -/
inductive Stop : ℕ × Bool → ℕ × Bool → Pc → Prop
  | aside (b : ℕ × Bool) {pc : Pc} (hpc : pc.isAside = true) : Stop b b pc
  | sleep {writing : ℕ} (moving : Bool) {pc : Pc} (hpc : pc.waitsOn = some .out)
    (hwriting : writing ≠ 0) : Stop (writing, moving) (writing, moving) pc
  | sleepSocket (writing : ℕ) {moving : Bool} (taker : Taker) (hmoving : moving = true) :
    Stop (writing, moving) (writing, moving) (.awaitSocket taker)
  | poll {writing : ℕ} (moving : Bool) (sender : Sender) (vector : List Iovec)
    (hwriting : writing = 0) :
    Stop (writing, moving) (writing + 1, moving) (.pollOut false sender vector)
  | callback (writing : ℕ) {moving : Bool} (taker : Taker) (hmoving : moving = false) :
    Stop (writing, moving) (writing, true) (.callback taker)

namespace System

/-- `c->out.writing` and `c->out.socket_moving` -/
def occupied (s : System τ β) : ℕ × Bool := (s.conn.out.writing, s.conn.out.socketMoving)

/-- Thread `t` has run from `s` to `u`. -/
structure Stops (t : τ) (s u : System τ β) : Prop where
  others : ∀ v, v ≠ t → u.threads v = s.threads v
  stop : Stop s.occupied u.occupied (u.threads t)

variable {s u v : System τ β} {t : τ}

theorem Stops.congr (h : Stops t s u) (hoccupied : s.occupied = v.occupied)
    (hothers : ∀ w, w ≠ t → s.threads w = v.threads w) : Stops t v u :=
  ⟨fun w hw => (h.others w hw).trans (hothers w hw), hoccupied ▸ h.stop⟩

theorem Stops.of_serves (h : Serves t s u) : Stops t s u := by
  refine ⟨h.threads, ?_⟩
  have hsame : u.occupied = s.occupied := by rw [occupied, occupied, h.out]
  rw [hsame]
  exact .aside _ (Pc.isAside_of_isReader h.pc)

/-- Before the thread ran, others have read. -/
theorem Stops.of_reads (hreads : Reads s u) (h : Stops t u v) : Stops t s v :=
  h.congr (by rw [occupied, occupied, hreads.out]) fun w _ => by rw [hreads.threads]

/-- A thread that falls asleep has seen that another one writes, or that one is in the callback. -/
theorem Stops.of_waitsOn {c : Condition} (h : Stops t s u)
    (hwaits : (u.threads t).waitsOn = some c) :
    (c = .out → u.occupied.1 ≠ 0) ∧ (c = .socket → u.occupied.2 = true) := by
  obtain ⟨-, hstop⟩ := h
  generalize hs : s.occupied = before at hstop
  generalize hu : u.occupied = after at hstop
  generalize hpc : u.threads t = pc at hstop hwaits
  cases hstop with
  | aside b haside =>
    rw [(Pc.of_isAside haside).2.2] at hwaits
    cases hwaits
  | sleep moving hout hwriting =>
    rw [hout] at hwaits
    cases hwaits
    exact ⟨fun _ => hwriting, fun h => by cases h⟩
  | sleepSocket writing taker hmoving =>
    cases hwaits
    exact ⟨(fun h => by cases h), fun _ => hmoving⟩
  | poll moving sender vector hwriting => cases hwaits
  | callback writing taker hmoving => cases hwaits

/-- A thread that stops has not taken anything away from the others. -/
theorem Stops.le (h : Stops t s u) :
    s.occupied.1 ≤ u.occupied.1 ∧ (s.occupied.2 = true → u.occupied.2 = true) := by
  obtain ⟨-, hstop⟩ := h
  generalize hpc : u.threads t = pc at hstop
  generalize hs : s.occupied = before at hstop ⊢
  generalize hu : u.occupied = after at hstop ⊢
  cases hstop with
  | poll moving sender vector hwriting => exact ⟨Nat.le_succ _, id⟩
  | callback writing taker hmoving => exact ⟨le_rfl, fun _ => rfl⟩
  | _ => exact ⟨le_rfl, id⟩

variable [DecidableEq τ] {e : Env τ β}

/-! ### Where each function stops -/

theorem Stops.setPc {pc : Pc} (h : Stop s.occupied s.occupied pc) : Stops t s (s.setPc t pc) := by
  refine ⟨fun v hv => threads_setPc_of_ne s hv pc, ?_⟩
  rw [threads_setPc_self]
  exact h

/-- Where the thread was before does not matter. -/
theorem Stops.idle {pc : Pc} (h : Stops t (s.setPc t pc) u) : Stops t s u :=
  h.congr rfl fun _ hw => threads_setPc_of_ne s hw pc

theorem Stops.leave (s : System τ β) (t : τ) (entry : Entry β) : Stops t s (s.leave t entry) := by
  have hidle : Stops t s (s.setPc t .idle) := .setPc (.aside _ rfl)
  exact ⟨hidle.others, hidle.stop⟩

theorem stops_afterFlush (s : System τ β) (e : Env τ β) (t : τ) (f : Flusher) (ret : Bool) :
    Stops t s (s.afterFlush e t f ret) := by
  cases f with
  | flush target => exact .leave s t _
  | takeSocket flags =>
    cases ret with
    | true => exact (Stops.leave (s.takeSocket e flags) t _).congr rfl fun _ _ => rfl
    | false => exact .leave s t _
  | waitForReply request =>
    cases ret with
    | true => exact .of_serves (serves_startReply s e t request)
    | false => exact .of_reads (reads_wakeUpNextReader s e) (.leave _ t _)

theorem stops_afterSend (s : System τ β) (e : Env τ β) (t : τ) (sender : Sender) (ret : Bool) :
    Stops t s (s.afterSend e t sender ret) := by
  cases sender with
  | send number last =>
    cases ret with
    | true => exact .leave s t _
    | false => exact .of_reads (reads_shutdown s) (.leave _ t _)
  | writev last => exact .leave s t _
  | flusher f => exact stops_afterFlush s e t f ret

theorem stops_waitWrite (s : System τ β) (t : τ) (sender : Sender) (vector : List Iovec) :
    Stops t s (s.waitWrite t sender vector) := by
  rw [waitWrite]
  split
  · next hwriting => exact .setPc (.sleep _ rfl hwriting)
  · next hwriting =>
    refine ⟨fun v hv => threads_setPc_of_ne _ hv _, ?_⟩
    rw [threads_setPc_self]
    exact .poll _ sender vector (not_not.mp hwriting)

theorem stops_outSend (s : System τ β) (e : Env τ β) (t : τ) (sender : Sender) (ret : Bool)
    (vector : List Iovec) : Stops t s (s.outSend e t sender ret vector) := by
  rw [outSend]
  split
  · exact stops_waitWrite s t sender vector
  · have hsent := (stops_afterSend _ e t sender ret).of_reads (reads_wakeUpNextReader
      (s.setOut { s.conn.out with requestWritten := s.conn.out.request }) e)
    exact hsent.congr rfl fun _ _ => rfl

theorem stops_awaitWritten (s : System τ β) (e : Env τ β) (t : τ) (f : Flusher)
    (request : BitVec 64) (n : ℕ) : Stops t s (s.awaitWritten e t f request n) := by
  rw [awaitWritten]
  split
  · next hwriting => exact .setPc (.sleep _ rfl hwriting)
  · exact (stops_afterFlush _ e t f true).congr rfl fun _ _ => rfl

theorem stops_flushTo (s : System τ β) (e : Env τ β) (t : τ) (f : Flusher) (request : BitVec 64) :
    Stops t s (s.flushTo e t f request) := by
  rw [flushTo]
  split
  · exact (stops_afterFlush _ e t f true).congr rfl fun _ _ => rfl
  · split
    · exact (stops_outSend _ e t (.flusher f) true _).congr rfl fun _ _ => rfl
    · exact (stops_awaitWritten _ e t f request _).congr rfl fun _ _ => rfl

theorem stops_writeBlock (s : System τ β) (e : Env τ β) (t : τ) (number : BitVec 64)
    (vector : List (List UInt8)) : Stops t s (s.writeBlock e t number vector) := by
  obtain ⟨queue, queueLen, heq⟩ := out_writeBlock_eq s.conn.out vector
  have hblock : (s.setOut (s.conn.out.writeBlock vector).1).occupied = s.occupied := by
    rw [heq]
    rfl
  rw [writeBlock]
  split
  · exact (Stops.leave _ t _).congr hblock fun _ _ => rfl
  · exact (stops_outSend _ e t _ true _).congr hblock fun _ _ => rfl

theorem stops_sendRequest (s : System τ β) (e : Env τ β) (t : τ) (req : PreparedRequest) :
    Stops t s (s.sendRequest e t req) := by
  have hnumber : ((s.note (.numbered s.conn.out.writing
      s.conn.out.returnSocket.isSome)).numberRequest e req).occupied = s.occupied := by
    change ((s.conn.numberRequest req).1.out.writing, (s.conn.numberRequest req).1.out.socketMoving)
      = s.occupied
    rw [numberRequest_fst]
    rfl
  exact (stops_writeBlock _ e t _ _).congr hnumber fun _ _ => rfl

theorem stops_afterSocket (s : System τ β) (e : Env τ β) (t : τ) (taker : Taker) :
    Stops t s (s.afterSocket e t taker) := by
  cases taker with
  | send req => exact stops_sendRequest s e t req
  | takeSocket flags => exact stops_flushTo s e t (.takeSocket flags) _

theorem stops_getSocketBack (s : System τ β) (e : Env τ β) (t : τ) (taker : Taker) :
    Stops t s (s.getSocketBack e t taker) := by
  rw [getSocketBack]
  split
  · exact stops_afterSocket s e t taker
  · split
    · next hmoving => exact .setPc (.sleepSocket _ taker hmoving)
    · next hmoving =>
      refine ⟨fun v hv => threads_setPc_of_ne _ hv _, ?_⟩
      rw [threads_setPc_self]
      exact .callback _ taker (Bool.not_eq_true _ ▸ hmoving)

theorem stops_awaitTurn (s : System τ β) (e : Env τ β) (t : τ) (req : PreparedRequest) :
    Stops t s (s.awaitTurn e t req) := by
  rw [awaitTurn]
  split
  · next hwriting => exact .setPc (.sleep _ rfl hwriting)
  · exact stops_getSocketBack s e t (.send req)

theorem stops_start (s : System τ β) (e : Env τ β) (t : τ) (call : Call PreparedRequest) :
    Stops t s (s.start e t call) := by
  cases call with
  | send req => exact stops_awaitTurn s e t req
  | flush => exact stops_flushTo s e t _ _
  | takeSocket flags => exact stops_getSocketBack s e t _
  | writev vector requests =>
    exact (stops_outSend (s.numberOwner requests) e t _ true _).congr rfl fun _ _ => rfl
  | waitForReply request =>
    rw [start]
    split
    · exact .of_serves (serves_startReply s e t request)
    · exact stops_flushTo s e t _ _
  | pollForReply request => exact .of_serves (serves_pollForReply s t request)
  | discardReply request => exact .of_serves (serves_discardReply s t request)
  | waitForEvent => exact .of_serves (serves_waitEvent s e t)
  | pollForEvent => exact .of_serves (serves_pollEvent s e t)

/-! ### From where a thread gets the lock -/

omit [DecidableEq τ] in
/-- Thread `t` has got the lock, and does not count any more as one that writes or is in the
callback. -/
structure Begins (t : τ) (s u : System τ β) : Prop where
  others : ∀ v, v ≠ t → u.threads v = s.threads v
  idle : u.threads t = .idle
  writing : u.occupied.1 = s.occupied.1 - (s.threads t).writing
  moving : u.occupied.2 = (s.occupied.2 && !(s.threads t).isCallback)

theorem begins_idle (hwriting : (s.threads t).writing = 0)
    (hcallback : (s.threads t).isCallback = false) : Begins t s (s.setPc t .idle) where
  others := fun _ hv => threads_setPc_of_ne s hv _
  idle := threads_setPc_self s t _
  writing := by rw [hwriting]; rfl
  moving := by rw [hcallback, Bool.not_false, Bool.and_true]; rfl

theorem begins_endCallback (hwriting : (s.threads t).writing = 0)
    (hcallback : (s.threads t).isCallback = true) :
    Begins t s (s.endCallback.setPc t .idle) where
  others := fun _ hv => threads_setPc_of_ne _ hv _
  idle := threads_setPc_self _ t _
  writing := by rw [hwriting]; rfl
  moving := by rw [hcallback, Bool.not_true, Bool.and_false]; rfl

theorem occupied_pollWrite (s : System τ β) (e : Env τ β) (failed : Bool) (vector : List Iovec) :
    (s.pollWrite e failed vector).1.occupied = s.occupied := by
  have hread : (s.pollRead e failed).1.occupied = s.occupied := by
    rw [occupied, occupied, (reads_pollRead s e failed).out]
  rw [System.pollWrite]
  split
  · rw [← hread]
    cases e.writev <;> rfl
  · exact hread

/-- Where the thread is that has left `poll`. -/
theorem begins_endWrite (e : Env τ β) {failed : Bool} {sender : Sender} {vector : List Iovec}
    (hpc : s.threads t = .pollOut failed sender vector) :
    Begins t s ((s.pollWrite e failed vector).1.endWrite.endRead.setPc t .idle) := by
  have hoccupied := s.occupied_pollWrite e failed vector
  obtain ⟨-, -, hthreads⟩ := s.pollWrite_counts e failed vector
  refine ⟨fun v hv => ?_, threads_setPc_self _ t _, ?_, ?_⟩
  · rw [threads_setPc_of_ne _ hv]
    exact congrFun hthreads v
  · rw [hpc, ← hoccupied]
    rfl
  · rw [hpc, ← hoccupied]
    exact (Bool.and_true _).symm

theorem begins_endRead (e : Env τ β) {failed : Bool} {waiter : Waiter}
    (hpc : s.threads t = .pollIn failed waiter) :
    Begins t s ((s.pollRead e failed).1.endRead.setPc t .idle) := by
  have hreads := reads_pollRead s e failed
  have hoccupied : (s.pollRead e failed).1.occupied = s.occupied := by
    rw [occupied, occupied, hreads.out]
  refine ⟨fun v hv => ?_, threads_setPc_self _ t _, ?_, ?_⟩
  · rw [threads_setPc_of_ne _ hv]
    exact congrFun hreads.threads v
  · rw [hpc, ← hoccupied]
    rfl
  · rw [hpc, ← hoccupied]
    exact (Bool.and_true _).symm

variable [Fintype τ]

/-- **One stretch of code**, for what it does to `writing` and `socket_moving`. -/
theorem begins_stops_run (h : s.run t e = some u) : ∃ v, Begins t s v ∧ Stops t v u := by
  have hbegins : ∀ {pc}, s.threads t = pc → pc.writing = 0 → pc.isCallback = false →
      Begins t s (s.setPc t .idle) := by
    rintro pc rfl hwriting hcallback
    exact begins_idle hwriting hcallback
  rw [System.run] at h
  split at h
  · cases h
  · next heq =>
    cases h
    exact ⟨_, hbegins heq rfl rfl, stops_start _ e t _⟩
  · next heq =>
    cases h
    exact ⟨_, hbegins heq rfl rfl, stops_awaitTurn _ e t _⟩
  · next heq =>
    cases h
    exact ⟨_, hbegins heq rfl rfl, stops_getSocketBack _ e t _⟩
  · next heq =>
    split at h
    · cases h
      refine ⟨_, begins_endCallback ?_ ?_, stops_afterSocket _ e t _⟩ <;> rw [heq] <;> rfl
    · cases h
  · next heq =>
    cases h
    exact ⟨_, hbegins heq rfl rfl, stops_outSend _ e t _ _ _⟩
  · next heq =>
    split at h
    · cases h
      exact ⟨_, begins_endWrite e heq, stops_outSend _ e t _ _ _⟩
    · cases h
  · next heq =>
    cases h
    exact ⟨_, hbegins heq rfl rfl, stops_awaitWritten _ e t _ _ _⟩
  · next heq =>
    cases h
    exact ⟨_, hbegins heq rfl rfl, .of_serves (serves_afterRead _ e t _ _)⟩
  · next heq =>
    cases h
    exact ⟨_, begins_endRead e heq, .of_serves (serves_afterRead _ e t _ _)⟩

/-! ### Who is there -/

omit [DecidableEq τ] [Fintype τ] in
/-- `writing` stands for a thread in `poll`, and `socket_moving` for one in the callback. -/
structure Manned (s : System τ β) (writer caller : Option τ) : Prop where
  writing : s.occupied.1 = writer.elim 0 fun _ => 1
  moving : s.occupied.2 = caller.isSome
  writer : ∀ v, (s.threads v).isPollOut = true ↔ writer = some v
  caller : ∀ v, (s.threads v).isCallback = true ↔ caller = some v

variable {writer caller : Option τ}

omit [DecidableEq τ] [Fintype τ] in
theorem Manned.writing_ne_zero_iff (h : s.Manned writer caller) :
    s.occupied.1 ≠ 0 ↔ ∃ v, writer = some v := by
  rw [h.writing]
  cases writer <;> simp

omit [DecidableEq τ] [Fintype τ] in
theorem Manned.moving_iff (h : s.Manned writer caller) :
    s.occupied.2 = true ↔ ∃ v, caller = some v := by
  rw [h.moving, Option.isSome_iff_exists]

omit [Fintype τ] in
/-- A thread that runs is neither. -/
theorem Manned.begins (h : s.Manned writer caller) (hu : Begins t s u) :
    u.Manned (if writer = some t then none else writer)
      (if caller = some t then none else caller) := by
  have hrole : ∀ {role : Option τ} {f : Pc → Bool}, f .idle = false →
      (∀ v, f (s.threads v) = true ↔ role = some v) →
      ∀ v, f (u.threads v) = true ↔ (if role = some t then none else role) = some v := by
    intro role f hidle hf v
    by_cases hv : v = t
    · rw [hv, hu.idle, hidle]
      split
      · simp
      · next hne => simp [hne]
    · rw [hu.others v hv, hf v]
      split
      · next heq => simp [heq, Ne.symm hv]
      · rfl
  refine ⟨?_, ?_, hrole rfl h.writer, hrole rfl h.caller⟩
  · rw [hu.writing, h.writing, Pc.writing_eq]
    by_cases hw : writer = some t
    · simp [hw, (h.writer t).mpr hw]
    · rw [if_neg (mt (h.writer t).mp hw), if_neg hw, Nat.sub_zero]
  · rw [hu.moving, h.moving]
    by_cases hc : caller = some t
    · rw [(h.caller t).mpr hc, if_pos hc, Bool.not_true, Bool.and_false]
      rfl
    · rw [Bool.eq_false_iff.mpr (mt (h.caller t).mp hc), if_neg hc, Bool.not_false, Bool.and_true]

omit [DecidableEq τ] [Fintype τ] in
/-- What the others do stays as it was, and what thread `t` does is known. -/
theorem Manned.move {writer' caller' : Option τ} (h : s.Manned writer caller)
    (hothers : ∀ v, v ≠ t → u.threads v = s.threads v)
    (hoccupied : u.occupied = (writer'.elim 0 fun _ => 1, caller'.isSome))
    (hwriter : ∀ v, v ≠ t → (writer' = some v ↔ writer = some v))
    (hcaller : ∀ v, v ≠ t → (caller' = some v ↔ caller = some v))
    (hself : (u.threads t).isPollOut = true ↔ writer' = some t)
    (hself' : (u.threads t).isCallback = true ↔ caller' = some t) : u.Manned writer' caller' := by
  refine ⟨congrArg Prod.fst hoccupied, congrArg Prod.snd hoccupied, fun v => ?_, fun v => ?_⟩
  · by_cases hv : v = t
    · rw [hv, hself]
    · rw [hothers v hv, h.writer v, hwriter v hv]
  · by_cases hv : v = t
    · rw [hv, hself']
    · rw [hothers v hv, h.caller v, hcaller v hv]

omit [DecidableEq τ] [Fintype τ] in
/-- A thread stops, and then it may be one of them. -/
theorem Manned.stops (h : s.Manned writer caller) (hidle : s.threads t = .idle)
    (hu : Stops t s u) : ∃ writer' caller', u.Manned writer' caller' := by
  have hwriter : writer ≠ some t := fun heq => by
    have hpoll := (h.writer t).mpr heq
    rw [hidle] at hpoll
    cases hpoll
  have hcaller : caller ≠ some t := fun heq => by
    have hback := (h.caller t).mpr heq
    rw [hidle] at hback
    cases hback
  have hsame : s.occupied = (writer.elim 0 fun _ => 1, caller.isSome) :=
    Prod.ext h.writing h.moving
  obtain ⟨hothers, hstop⟩ := hu
  generalize hs : s.occupied = before at hstop
  generalize hafter : u.occupied = after at hstop
  generalize hpc : u.threads t = pc at hstop
  -- it is none of them
  have hneither : pc.isPollOut = false → pc.isCallback = false → after = before →
      ∃ writer' caller', u.Manned writer' caller' := by
    intro hpoll hback heq
    refine ⟨writer, caller, h.move hothers (by rw [hafter, heq, ← hs, hsame])
      (fun _ _ => .rfl) (fun _ _ => .rfl) ?_ ?_⟩
    · simp [hpc, hpoll, hwriter]
    · simp [hpc, hback, hcaller]
  cases hstop with
  | aside b haside =>
    obtain ⟨hpoll, hback, -⟩ := Pc.of_isAside haside
    exact hneither hpoll hback rfl
  | sleep moving hwaits hwriting =>
    obtain ⟨hpoll, hback⟩ := Pc.of_waitsOn hwaits
    exact hneither hpoll hback rfl
  | sleepSocket writing taker hmoving => exact hneither rfl rfl rfl
  | poll moving sender vector hwriting =>
    rw [hs] at hsame
    obtain ⟨helim, hmoving⟩ := Prod.mk.inj hsame
    have hnone : writer = none := by
      cases writer with
      | none => rfl
      | some v => exact absurd helim (by rw [hwriting]; exact Nat.zero_ne_one)
    refine ⟨some t, caller, h.move hothers ?_ (fun v hv => ?_) (fun _ _ => .rfl) ?_ ?_⟩
    · rw [hafter, hwriting, hmoving]
      rfl
    · simp [hnone, Ne.symm hv]
    · simp [hpc, Pc.isPollOut]
    · simp [hpc, Pc.isCallback, hcaller]
  | callback writing taker hmoving =>
    rw [hs] at hsame
    obtain ⟨helim, hsome⟩ := Prod.mk.inj hsame
    have hnone : caller = none := Option.not_isSome_iff_eq_none.mp fun hsome' =>
      absurd (hsome.trans hsome') (by rw [hmoving]; exact Bool.false_ne_true)
    refine ⟨writer, some t, h.move hothers ?_ (fun _ _ => .rfl) (fun v hv => ?_) ?_ ?_⟩
    · rw [hafter, helim]
      rfl
    · simp [hnone, Ne.symm hv]
    · simp [hpc, Pc.isPollOut, hwriter]
    · simp [hpc, Pc.isCallback]

/-! ### What a thread does without the lock -/

omit [DecidableEq τ] [Fintype τ] in
/-- Thread `t` has done something without the lock. -/
structure Unlocked (t : τ) (s u : System τ β) : Prop where
  occupied : u.occupied = s.occupied
  others : ∀ v, v ≠ t → u.threads v = s.threads v
  isPollOut : (u.threads t).isPollOut = (s.threads t).isPollOut
  isCallback : (u.threads t).isCallback = (s.threads t).isCallback
  waitsOn : (u.threads t).waitsOn = none

omit [Fintype τ] in
theorem unlocked_lock (hidle : s.threads t = .idle) (call : Call PreparedRequest) :
    Unlocked t s (s.setPc t (.lock call)) where
  occupied := rfl
  others := fun _ hv => threads_setPc_of_ne s hv _
  isPollOut := by rw [threads_setPc_self, hidle]; rfl
  isCallback := by rw [threads_setPc_self, hidle]; rfl
  waitsOn := by rw [threads_setPc_self]; rfl

omit [DecidableEq τ] [Fintype τ] in
theorem unlocked_of_eq (hidle : s.threads t = .idle) (hoccupied : u.occupied = s.occupied)
    (hthreads : u.threads = s.threads) : Unlocked t s u where
  occupied := hoccupied
  others := fun v _ => congrFun hthreads v
  isPollOut := by rw [hthreads]
  isCallback := by rw [hthreads]
  waitsOn := by rw [hthreads, hidle]; rfl

omit [Fintype τ] in
theorem unlocked_enter (hidle : s.threads t = .idle) (call : Call SendCall) :
    Unlocked t s (s.enter t call) := by
  cases call with
  | send call =>
    rw [System.enter]
    split
    · exact unlocked_lock hidle _
    · exact unlocked_of_eq hidle rfl rfl
  | discardReply request =>
    rw [System.enter]
    split
    · exact unlocked_of_eq hidle rfl rfl
    · exact unlocked_lock hidle _
  | _ => exact unlocked_lock hidle _

omit [Fintype τ] in
theorem unlocked_call {call : Call SendCall} (h : s.call t call = some u) : Unlocked t s u := by
  rw [System.call] at h
  split at h
  · next hidle =>
    split at h
    · split at h
      · cases h
        cases call <;> exact unlocked_of_eq hidle rfl rfl
      · cases h
        exact unlocked_enter hidle call
    · cases h
  · cases h

omit [Fintype τ] in
theorem unlocked_pollFails (h : s.pollFails t = some u) : Unlocked t s u := by
  rw [System.pollFails] at h
  split at h
  · next heq =>
    cases h
    refine ⟨rfl, fun v hv => threads_setPc_of_ne _ hv _, ?_, ?_, ?_⟩ <;>
      rw [threads_setPc_self] <;> first | rfl | (rw [heq]; rfl)
  · next heq =>
    cases h
    refine ⟨rfl, fun v hv => threads_setPc_of_ne _ hv _, ?_, ?_, ?_⟩ <;>
      rw [threads_setPc_self] <;> first | rfl | (rw [heq]; rfl)
  · cases h

omit [DecidableEq τ] [Fintype τ] in
theorem Manned.unlocked (h : s.Manned writer caller) (hu : Unlocked t s u) :
    u.Manned writer caller := by
  have hpoll : ∀ v, (u.threads v).isPollOut = (s.threads v).isPollOut := by
    intro v
    by_cases hv : v = t
    · rw [hv, hu.isPollOut]
    · rw [hu.others v hv]
  have hback : ∀ v, (u.threads v).isCallback = (s.threads v).isCallback := by
    intro v
    by_cases hv : v = t
    · rw [hv, hu.isCallback]
    · rw [hu.others v hv]
  exact ⟨by rw [hu.occupied, h.writing], by rw [hu.occupied, h.moving],
    fun v => by rw [hpoll, h.writer], fun v => by rw [hback, h.caller]⟩

theorem Manned.step {a : Action τ β} (h : s.Manned writer caller) (hstep : s.step a = some u) :
    ∃ writer' caller', u.Manned writer' caller' := by
  cases a with
  | call t call => exact ⟨writer, caller, h.unlocked (unlocked_call hstep)⟩
  | pollFails t => exact ⟨writer, caller, h.unlocked (unlocked_pollFails hstep)⟩
  | run t e =>
    obtain ⟨v, hbegins, hstops⟩ := begins_stops_run hstep
    exact (h.begins hbegins).stops hbegins.idle hstops

omit [DecidableEq τ] [Fintype τ] in
theorem manned_init (size : ℕ) (maximum : BitVec 16) :
    (init size maximum : System τ β).Manned none none :=
  ⟨rfl, rfl, fun _ => by simp [init, Pc.isPollOut], fun _ => by simp [init, Pc.isCallback]⟩

/-! ### Broadcasts -/

omit [DecidableEq τ] [Fintype τ] in
/-- Whose step this is. -/
def Action.thread : Action τ β → τ
  | .call t _ | .pollFails t | .run t _ => t

/-- What is broadcast in a step: `c->out.cond` where the loop of `_xcb_out_send` ends, which it does
at once when there is nothing to write, and `c->out.socket_cond` behind the callback. -/
def broadcasts (s : System τ β) : Action τ β → Option Condition
  | .run t e =>
    match s.threads t with
    | .lock (.writev vector _) => if vector = [] then some .out else none
    | .awaitWriter _ vector => if vector = [] then some .out else none
    | .pollOut failed _ vector =>
      let result := s.pollWrite e failed vector
      if result.2.1 ∧ result.2.2 ≠ [] then none else some .out
    | .callback _ => some .socket
    | _ => none
  | _ => none

omit [Fintype τ] in
theorem isPollOut_waitWrite (hzero : s.conn.out.writing = 0) (sender : Sender)
    (vector : List Iovec) : ((s.waitWrite t sender vector).threads t).isPollOut = true := by
  rw [waitWrite, if_neg (not_not.mpr hzero), threads_setPc_self]
  rfl

/-- A thread that has written, and neither broadcasts nor has to wait, is in `poll` again. -/
theorem isPollOut_run (h : s.Manned (some t) caller) (hrun : s.run t e = some u)
    (hsilent : s.broadcasts (.run t e) ≠ some .out) : (u.threads t).isPollOut = true := by
  obtain ⟨failed, sender, vector, hpc⟩ := Pc.exists_of_isPollOut ((h.writer t).mpr rfl)
  rw [System.run, hpc] at hrun
  dsimp only at hrun
  split at hrun
  · cases hrun
    simp only [broadcasts, hpc] at hsilent
    rw [finishWrite, outSend]
    split
    · have hzero := (h.begins (begins_endWrite e hpc)).writing
      rw [if_pos rfl] at hzero
      exact isPollOut_waitWrite hzero sender _
    · next hends => exact absurd (if_neg hends) hsilent
  · cases hrun

omit [Fintype τ] in
/-- Behind the callback, `c->out.socket_cond` is broadcast. -/
theorem broadcasts_callback (hback : (s.threads t).isCallback = true) :
    s.broadcasts (.run t e) = some .socket := by
  obtain ⟨taker, hpc⟩ := Pc.exists_of_isCallback hback
  simp [broadcasts, hpc]

end System

/-! ### Who sleeps -/

/-- The connection, and which of the threads that wait for a broadcast have not had one since they
began to wait. -/
structure Vigil (τ β : Type) where
  system : System τ β
  asleep : τ → Bool

namespace Vigil

def init (size : ℕ) (maximum : BitVec 16) : Vigil τ β := ⟨.init size maximum, fun _ => false⟩

/-- Thread `v` waits on condition variable `c` and has not been woken. -/
def Sleeps (w : Vigil τ β) (v : τ) (c : Condition) : Prop :=
  w.asleep v = true ∧ (w.system.threads v).waitsOn = some c

variable [DecidableEq τ] [Fintype τ]

def step (w : Vigil τ β) (a : System.Action τ β) : Option (Vigil τ β) :=
  (w.system.step a).map fun s =>
    { system := s
      asleep := fun v =>
        if v = a.thread then (s.threads v).waitsOn.isSome
        else w.asleep v && w.system.broadcasts a != (w.system.threads v).waitsOn }

/-- Who sleeps will be woken: by a thread that writes, once it is not in `poll` any more, or by the
thread in the callback, as soon as that has returned. -/
structure Watched (w : Vigil τ β) : Prop where
  out : ∀ v, w.Sleeps v .out → ∃ u, (w.system.threads u).isPollOut = true ∧
    ∀ e w', w.step (.run u e) = some w' →
      w'.asleep v = false ∨ (w'.system.threads u).isPollOut = true
  socket : ∀ v, w.Sleeps v .socket → ∃ u, (w.system.threads u).isCallback = true ∧
    ∀ e w', w.step (.run u e) = some w' → w'.asleep v = false

/-- Thread `v` does not go on until another one does something. -/
def Dormant (w : Vigil τ β) (v : τ) : Prop :=
  (∃ c, w.Sleeps v c) ∨ (w.system.threads v).isAwaitReader = true ∧ w.system.signalled v = false

/-- As long as a thread is inside a call, a thread that nobody has to wake can go on. -/
def Lively (w : Vigil τ β) : Prop :=
  (∃ v, w.system.threads v ≠ .idle) → ∃ u e, ¬ w.Dormant u ∧ (w.step (.run u e)).isSome = true

/-- The invariant. -/
structure Attended (w : Vigil τ β) : Prop where
  manned : ∃ writer caller, w.system.Manned writer caller
  out : ∀ v, w.Sleeps v .out → w.system.occupied.1 ≠ 0
  socket : ∀ v, w.Sleeps v .socket → w.system.occupied.2 = true

variable {w w' : Vigil τ β} {a : System.Action τ β} {t v : τ} {c : Condition}
  {s : System τ β}

theorem step_eq_some (h : w.step a = some w') : w.system.step a = some w'.system ∧
    ∀ v, w'.asleep v = if v = a.thread then (w'.system.threads v).waitsOn.isSome
      else w.asleep v && w.system.broadcasts a != (w.system.threads v).waitsOn := by
  obtain ⟨s, hs, rfl⟩ := Option.map_eq_some_iff.mp h
  exact ⟨hs, fun _ => rfl⟩

/-- Another thread that sleeps slept before, and what it waits for was not broadcast. -/
theorem Sleeps.of_step (hstep : w.step a = some w')
    (hothers : ∀ v, v ≠ a.thread → w'.system.threads v = w.system.threads v)
    (hv : v ≠ a.thread) (h : w'.Sleeps v c) : w.Sleeps v c ∧ w.system.broadcasts a ≠ some c := by
  obtain ⟨-, hasleep⟩ := step_eq_some hstep
  obtain ⟨hsleeps, hwaits⟩ := h
  rw [hothers v hv] at hwaits
  rw [hasleep, if_neg hv, hwaits, Bool.and_eq_true, bne_iff_ne] at hsleeps
  exact ⟨⟨hsleeps.1, hwaits⟩, hsleeps.2⟩

theorem Attended.unlocked (h : w.Attended) (hstep : w.step a = some w')
    (hu : System.Unlocked a.thread w.system w'.system) : w'.Attended := by
  obtain ⟨writer, caller, hmanned⟩ := h.manned
  have hsleeps : ∀ {v c}, w'.Sleeps v c → w.Sleeps v c := by
    intro v c hv
    have hne : v ≠ a.thread := by
      rintro rfl
      rw [Sleeps, hu.waitsOn] at hv
      cases hv.2
    exact (hv.of_step hstep hu.others hne).1
  refine ⟨⟨writer, caller, hmanned.unlocked hu⟩, fun v hv => ?_, fun v hv => ?_⟩
  · rw [hu.occupied]
    exact h.out v (hsleeps hv)
  · rw [hu.occupied]
    exact h.socket v (hsleeps hv)

theorem Attended.run (h : w.Attended) {e : Env τ β} (hstep : w.step (.run t e) = some w') :
    w'.Attended := by
  obtain ⟨hrun, -⟩ := step_eq_some hstep
  obtain ⟨u, hbegins, hstops⟩ := System.begins_stops_run hrun
  obtain ⟨writer, caller, hmanned⟩ := h.manned
  obtain ⟨hwriting, hmoving⟩ := hstops.le
  have hrunning := hmanned.begins hbegins
  have hothers : ∀ v, v ≠ t → w'.system.threads v = w.system.threads v := fun v hv =>
    (hstops.others v hv).trans (hbegins.others v hv)
  obtain ⟨writer', caller', hmanned'⟩ := hrunning.stops hbegins.idle hstops
  refine ⟨⟨writer', caller', hmanned'⟩, fun v hv => ?_, fun v hv => ?_⟩
  · by_cases hvt : v = t
    · subst hvt
      exact (hstops.of_waitsOn hv.2).1 rfl
    · obtain ⟨hslept, hsilent⟩ := hv.of_step hstep hothers hvt
      by_cases hwriter : writer = some t
      · -- this thread was the one that wrote, and it still is
        subst hwriter
        have hpoll := System.isPollOut_run hmanned hrun hsilent
        exact hmanned'.writing_ne_zero_iff.mpr ⟨t, (hmanned'.writer t).mp hpoll⟩
      · have hsame : u.occupied.1 = w.system.occupied.1 := by
          rw [hrunning.writing, if_neg hwriter, hmanned.writing]
        have hbusy := h.out v hslept
        omega
  · by_cases hvt : v = t
    · subst hvt
      exact (hstops.of_waitsOn hv.2).2 rfl
    · obtain ⟨hslept, hsilent⟩ := hv.of_step hstep hothers hvt
      by_cases hcaller : caller = some t
      · exact absurd (System.broadcasts_callback ((hmanned.caller t).mpr hcaller)) hsilent
      · have hsame : u.occupied.2 = w.system.occupied.2 := by
          rw [hrunning.moving, if_neg hcaller, hmanned.moving]
        exact hmoving (hsame.trans (h.socket v hslept))

theorem Attended.step (h : w.Attended) (hstep : w.step a = some w') : w'.Attended := by
  obtain ⟨hsystem, -⟩ := step_eq_some hstep
  cases a with
  | call t call => exact h.unlocked hstep (System.unlocked_call hsystem)
  | pollFails t => exact h.unlocked hstep (System.unlocked_pollFails hsystem)
  | run t e => exact h.run hstep

omit [DecidableEq τ] [Fintype τ] in
theorem attended_init (size : ℕ) (maximum : BitVec 16) :
    (init size maximum : Vigil τ β).Attended := by
  refine ⟨⟨none, none, System.manned_init size maximum⟩, fun v hv => ?_, fun v hv => ?_⟩
  · cases hv.1
  · cases hv.1

theorem attended_of_reach {ok : Vigil τ β → System.Action τ β → Prop} {size : ℕ}
    {maximum : BitVec 16} (h : Transition.Reach step ok (init size maximum) w) : w.Attended :=
  h.invariant (fun _ _ _ hw _ hstep => hw.step hstep) (attended_init size maximum)

/-! ### The results -/

/-- Whoever is woken in a step does not sleep behind it. -/
theorem awake_of_broadcasts (hstep : w.step a = some w') (hsleeps : w.Sleeps v c)
    (hv : v ≠ a.thread) (hbroadcasts : w.system.broadcasts a = some c) : w'.asleep v = false := by
  obtain ⟨-, hasleep⟩ := step_eq_some hstep
  rw [hasleep, if_neg hv, hbroadcasts, hsleeps.2]
  simp

theorem Attended.watched (h : w.Attended) : w.Watched := by
  obtain ⟨writer, caller, hmanned⟩ := h.manned
  refine ⟨fun v hv => ?_, fun v hv => ?_⟩
  · obtain ⟨u, rfl⟩ := hmanned.writing_ne_zero_iff.mp (h.out v hv)
    have hpoll := (hmanned.writer u).mpr rfl
    have hne : v ≠ u := by
      rintro rfl
      rw [(Pc.of_waitsOn hv.2).1] at hpoll
      cases hpoll
    refine ⟨u, hpoll, fun e w' hstep => ?_⟩
    by_cases hbroadcasts : w.system.broadcasts (.run u e) = some .out
    · exact .inl (awake_of_broadcasts hstep hv hne hbroadcasts)
    · exact .inr (System.isPollOut_run hmanned (step_eq_some hstep).1 hbroadcasts)
  · obtain ⟨u, rfl⟩ := hmanned.moving_iff.mp (h.socket v hv)
    have hback := (hmanned.caller u).mpr rfl
    have hne : v ≠ u := by
      rintro rfl
      rw [(Pc.of_waitsOn hv.2).2] at hback
      cases hback
    exact ⟨u, hback, fun e w' hstep =>
      awake_of_broadcasts hstep hv hne (System.broadcasts_callback hback)⟩

/-- **No wakeup is lost.** In every run, a thread that sleeps in one of the loops of `xcb_out.c` has
another thread that will broadcast its condition variable. -/
theorem watched_of_reach {size : ℕ} {maximum : BitVec 16}
    (h : Transition.Reach step (fun _ _ => True) (init size maximum) w) : w.Watched :=
  (attended_of_reach h).watched

/-- Thread 0 begins to flush its request, and thread 1 waits for its turn. -/
def sendBehindFlush : List (System.Action (Fin 3) Unit) :=
  [.call 0 (.send (wordCall true)), .run 0 System.writes, .call 0 .flush, .run 0 System.writes,
    .call 1 (.send (wordCall true)), .run 1 System.writes]

theorem exists_sendBehindFlush :
    ∃ w : Vigil (Fin 3) Unit, sendBehindFlush.foldlM step (init 16384 65535) = some w ∧
      w.Sleeps 1 .out := by
  have hrun : (sendBehindFlush.foldlM step (init 16384 65535)).map (fun w =>
      (w.asleep 1, (w.system.threads 1).waitsOn)) = some (true, some .out) := by
    decide +kernel
  obtain ⟨w, hw, hsleeps⟩ := Option.map_eq_some_iff.mp hrun
  exact ⟨w, hw, Prod.mk.inj hsleeps⟩

theorem watched_sendBehindFlush : ∃ w : Vigil (Fin 3) Unit, w.Sleeps 1 .out ∧ w.Watched := by
  obtain ⟨w, hw, hsleeps⟩ := exists_sendBehindFlush
  exact ⟨w, hsleeps, watched_of_reach (.of_foldlM (fun _ _ _ => trivial) hw)⟩

/-! ### All threads together -/

omit [DecidableEq τ] in
theorem exists_env : ∃ e : Env τ β, e.writev = .again :=
  ⟨⟨false, false, ⟨[], none, false⟩, .again, fun _ => false, Finset.univ.toList, by simp⟩, rfl⟩

/-- A thread inside a call can be run, except that a callback may have to wait for others. -/
theorem isSome_step (hbusy : w.system.threads t ≠ .idle)
    (hback : (w.system.threads t).isCallback = true →
      ∀ u, (w.system.threads u).isWritev = false)
    {e : Env τ β} (he : e.writev = .again) : (w.step (.run t e)).isSome = true := by
  rw [step, Option.isSome_map]
  change (w.system.run t e).isSome = true
  rw [System.run]
  cases hpc : w.system.threads t with
  | idle => exact absurd hpc hbusy
  | callback taker =>
    rw [hpc] at hback
    simp [hback rfl]
  | pollOut failed sender vector => simp [he, WriteResult.Valid]
  | _ => rfl

omit [DecidableEq τ] [Fintype τ] in
/-- A thread that waits for nobody. -/
theorem not_dormant_of_waitsOn (hwaits : (w.system.threads t).waitsOn = none)
    (hreader : (w.system.threads t).isAwaitReader = false) : ¬ w.Dormant t := by
  rintro (⟨c, hsleeps⟩ | ⟨hawaits, -⟩)
  · rw [Sleeps, hwaits] at hsleeps
    cases hsleeps.2
  · rw [hreader] at hawaits
    cases hawaits

/-- While a thread writes, it can go on. -/
theorem Attended.exists_run_of_writer (h : w.Attended) {e : Env τ β} (he : e.writev = .again)
    (hwriting : w.system.occupied.1 ≠ 0) :
    ∃ u, ¬ w.Dormant u ∧ (w.step (.run u e)).isSome = true := by
  obtain ⟨writer, caller, hmanned⟩ := h.manned
  obtain ⟨u, rfl⟩ := hmanned.writing_ne_zero_iff.mp hwriting
  obtain ⟨failed, sender, vector, hpc⟩ := Pc.exists_of_isPollOut ((hmanned.writer u).mpr rfl)
  refine ⟨u, not_dormant_of_waitsOn ?_ ?_, isSome_step ?_ (fun hback => ?_) he⟩
  · rw [hpc]; rfl
  · rw [hpc]; rfl
  · rw [hpc]; exact Pc.noConfusion
  · rw [hpc] at hback
    cases hback

/-- While nobody writes, a thread can go on unless it waits for the socket or for a reader. -/
theorem Attended.exists_run (h : w.Attended) {e : Env τ β} (he : e.writev = .again)
    (hwriting : w.system.occupied.1 = 0) (hbusy : w.system.threads t ≠ .idle)
    (hback : (w.system.threads t).isCallback = false)
    (hsocket : (w.system.threads t).waitsOn = some .socket → w.system.occupied.2 = false)
    (hreader : (w.system.threads t).isAwaitReader = true → w.system.signalled t = true) :
    ∃ u, ¬ w.Dormant u ∧ (w.step (.run u e)).isSome = true := by
  refine ⟨t, ?_, isSome_step hbusy (fun hcalled => ?_) he⟩
  · rintro (⟨c, hsleeps⟩ | ⟨hawaits, hunsignalled⟩)
    · cases c with
      | out => exact h.out t hsleeps hwriting
      | socket =>
        have hmoving := h.socket t hsleeps
        rw [hsocket hsleeps.2] at hmoving
        cases hmoving
    · rw [hreader hawaits] at hunsignalled
      cases hunsignalled
  · rw [hback] at hcalled
    cases hcalled

/-- While a thread is in the callback, it can go on, or the one it waits for can. -/
theorem Attended.exists_run_of_caller (h : w.Attended) {e : Env τ β} (he : e.writev = .again)
    (hwriting : w.system.occupied.1 = 0) (hmoving : w.system.occupied.2 = true) :
    ∃ u, ¬ w.Dormant u ∧ (w.step (.run u e)).isSome = true := by
  obtain ⟨writer, caller, hmanned⟩ := h.manned
  obtain ⟨u, rfl⟩ := hmanned.moving_iff.mp hmoving
  obtain ⟨taker, hpc⟩ := Pc.exists_of_isCallback ((hmanned.caller u).mpr rfl)
  by_cases hwritev : ∀ x, (w.system.threads x).isWritev = false
  · refine ⟨u, not_dormant_of_waitsOn ?_ ?_, isSome_step ?_ (fun _ => hwritev) he⟩
    · rw [hpc]; rfl
    · rw [hpc]; rfl
    · rw [hpc]; exact Pc.noConfusion
  · obtain ⟨x, hx⟩ := not_forall.mp hwritev
    rw [Bool.not_eq_false] at hx
    cases hpc : w.system.threads x with
    | lock call =>
      refine h.exists_run (t := x) he hwriting ?_ ?_ ?_ ?_ <;> rw [hpc]
      · exact Pc.noConfusion
      · rfl
      · exact fun hsocket => by cases hsocket
      · exact fun hreader => by cases hreader
    | awaitWriter sender vector =>
      refine h.exists_run (t := x) he hwriting ?_ ?_ ?_ ?_ <;> rw [hpc]
      · exact Pc.noConfusion
      · rfl
      · exact fun hsocket => by cases hsocket
      · exact fun hreader => by cases hreader
    | pollOut failed sender vector =>
      have hpoll := (hmanned.writer x).mp (by rw [hpc]; rfl)
      exact absurd hwriting (hmanned.writing_ne_zero_iff.mpr ⟨x, hpoll⟩)
    | _ =>
      rw [hpc] at hx
      cases hx

/-- When a thread polls with nothing to write, it can go on. -/
theorem Attended.exists_run_of_reading (h : w.Attended) (hcensus : w.system.Census)
    {e : Env τ β} (he : e.writev = .again) (hwriting : w.system.occupied.1 = 0)
    (hreading : w.system.conn.inp.reading ≠ 0) :
    ∃ u, ¬ w.Dormant u ∧ (w.step (.run u e)).isSome = true := by
  obtain ⟨writer, caller, hmanned⟩ := h.manned
  rw [hcensus.reading] at hreading
  obtain ⟨u, -, hu⟩ := Finset.exists_ne_zero_of_sum_ne_zero hreading
  cases hpc : w.system.threads u with
  | pollIn failed waiter =>
    refine h.exists_run (t := u) he hwriting ?_ ?_ ?_ ?_ <;> rw [hpc]
    · exact Pc.noConfusion
    · rfl
    · exact fun hsocket => by cases hsocket
    · exact fun hreader => by cases hreader
  | pollOut failed sender vector =>
    have hpoll := (hmanned.writer u).mp (by rw [hpc]; rfl)
    exact absurd hwriting (hmanned.writing_ne_zero_iff.mpr ⟨u, hpoll⟩)
  | _ =>
    rw [hpc] at hu
    exact absurd rfl hu

theorem Attended.lively (h : w.Attended) (hreaders : w.system.Attended) : w.Lively := by
  rintro ⟨v, hv⟩
  obtain ⟨e, he⟩ := exists_env (τ := τ) (β := β)
  have hgoes : ∃ u, ¬ w.Dormant u ∧ (w.step (.run u e)).isSome = true := by
    obtain ⟨writer, caller, hmanned⟩ := h.manned
    by_cases hwriting : w.system.occupied.1 = 0
    · by_cases hmoving : w.system.occupied.2 = true
      · exact h.exists_run_of_caller he hwriting hmoving
      · have hback : ∀ x, (w.system.threads x).isCallback = false := fun x =>
          Bool.eq_false_iff.mpr fun hcalled =>
            hmoving (hmanned.moving_iff.mpr ⟨x, (hmanned.caller x).mp hcalled⟩)
        by_cases hawaits : (w.system.threads v).isAwaitReader = true ∧
            w.system.signalled v = false
        · by_cases hreading : w.system.conn.inp.reading = 0
          · -- nobody polls, so one of the readers has been signalled
            obtain ⟨waiter, hpc⟩ : ∃ waiter, w.system.threads v = .awaitReader waiter := by
              cases hpc : w.system.threads v with
              | awaitReader waiter => exact ⟨waiter, rfl⟩
              | _ =>
                rw [hpc] at hawaits
                cases hawaits.1
            obtain ⟨x, waiter', hx, hsignalled⟩ := hreaders.relayed hreading ⟨v, waiter, hpc⟩
            refine h.exists_run (t := x) he hwriting ?_ (hback x) ?_ fun _ => hsignalled
            · rw [hx]; exact Pc.noConfusion
            · rw [hx]
              exact fun hsocket => by cases hsocket
          · exact h.exists_run_of_reading hreaders.census he hwriting hreading
        · refine h.exists_run he hwriting hv (hback v) (fun _ => ?_) fun hreader => ?_
          · exact Bool.eq_false_iff.mpr hmoving
          · exact Bool.not_eq_false _ ▸ fun hsignalled => hawaits ⟨hreader, hsignalled⟩
    · exact h.exists_run_of_writer he hwriting
  obtain ⟨u, hdormant, hrun⟩ := hgoes
  exact ⟨u, e, hdormant, hrun⟩

/-- **No deadlock.** In every run there is a thread that can go on unless all threads are out of
their calls. -/
theorem lively_of_reach {size : ℕ} {maximum : BitVec 16}
    (h : Transition.Reach step (fun _ _ => True) (init size maximum) w) : w.Lively := by
  have hall : w.Attended ∧ w.system.Queued ∧ w.system.Attended :=
    h.invariant (P := fun w => w.Attended ∧ w.system.Queued ∧ w.system.Attended)
      (fun w a w' hw _ hstep => by
        obtain ⟨hattended, hqueued, hreaders⟩ := hw
        have hsystem := (step_eq_some hstep).1
        exact ⟨hattended.step hstep, hqueued.step hsystem, hreaders.step hqueued hsystem⟩)
      ⟨attended_init size maximum, System.queued_init size maximum,
        System.attended_init size maximum⟩
  exact hall.1.lively hall.2.2

theorem lively_sendBehindFlush : ∃ w : Vigil (Fin 3) Unit, w.Sleeps 1 .out ∧ w.Lively := by
  obtain ⟨w, hw, hsleeps⟩ := exists_sendBehindFlush
  exact ⟨w, hsleeps, lively_of_reach (.of_foldlM (fun _ _ _ => trivial) hw)⟩

end Vigil

end Xcb
