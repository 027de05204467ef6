import Xcb.Readers
import Xcb.Words

/-!
# A connection in error

`has_error` is tested when a call begins, without the lock, and not again. A call that waits inside
when the connection fails goes on afterwards: `xcb_send_request` numbers its request and puts it
into the queue, and a thread in `poll` writes when the socket lets it. If neither happens, an error
is the end of the connection.

## Main definitions

* `System.Sticky` — what an error ought to mean for everything that happens later
* `System.Numbers`, `System.Writes` — the two ways on

## Main results

* `System.follows_step` — what any step does to the requests, the socket and the log
* `System.sticky_of_reach` — an error is sticky, unless a thread inside a call goes on
-/

namespace Xcb

variable {τ β : Type}

/-- The last of the requests for which a result reports success, if it does. -/
def Entry.success : Entry β → Option ℕ
  | .sent cookie last => if cookie ≠ 0 then some last else none
  | .flushed target true => some target
  | .took (some _) last => some last
  | .wrote last true => some last
  | _ => none

/-- The number that a thread remembers, on the way to a result. -/
def Flusher.last : Flusher → ℕ
  | .flush target => target
  | _ => 0

def Sender.last : Sender → ℕ
  | .send _ last => last
  | .writev last => last
  | .flusher f => f.last

def Pc.last : Pc → ℕ
  | .awaitWriter sender _ => sender.last
  | .pollOut _ sender _ => sender.last
  | .awaitWritten f _ _ => f.last
  | _ => 0

/-- Do `poll`, `_xcb_in_read` and `writev` let a thread write? -/
def Env.Writes (e : Env τ β) (failed : Bool) : Prop :=
  failed = false ∧ e.pollout = true ∧ (e.pollin && e.recv.closed) = false ∧
    ∃ n, e.writev = .wrote n

instance (e : Env τ β) (failed : Bool) : Decidable (e.Writes failed) :=
  decidable_of_iff (failed = false ∧ e.pollout = true ∧ (e.pollin && e.recv.closed) = false ∧
      e.writev ≠ .again ∧ e.writev ≠ .failed) <| by
    unfold Env.Writes
    cases e.writev <;> simp

namespace System

/-- No thread remembers a request that has not been numbered. -/
def Bounded (s : System τ β) : Prop := ∀ t, (s.threads t).last ≤ s.requests.length

/-- What happens between two states of a run. If `calm`, then no request is numbered and nothing is
written. -/
structure Follows (calm : Prop) (s u : System τ β) : Prop where
  error : s.conn.hasError = true → u.conn.hasError = true
  requests : s.requests.length ≤ u.requests.length
  same : calm → u.requests = s.requests ∧ u.socket = s.socket
  bounded : s.Bounded → u.Bounded
  log : ∃ new, u.log = s.log ++ new ∧
    ∀ entry ∈ new, ∀ last ∈ entry.success, last ≤ u.requests.length

variable {s u v : System τ β} {calm calm' : Prop}

namespace Follows

theorem of_reads (h : Reads s u) : Follows calm s u where
  error := h.hasError
  requests := by rw [h.requests]
  same := fun _ => ⟨h.requests, h.socket⟩
  bounded := fun hs t => by
    rw [h.threads, h.requests]
    exact hs t
  log := ⟨[], by rw [h.log, List.append_nil], nofun⟩

theorem of_serves {t : τ} (h : Serves t s u) : Follows calm s u where
  error := h.hasError
  requests := by rw [h.requests]
  same := fun _ => ⟨h.requests, h.socket⟩
  bounded := fun hs v => by
    rw [h.requests]
    by_cases hv : v = t
    · have hpc := h.pc
      rw [hv]
      cases hu : u.threads t <;> simp [hu, Pc.isReader, Pc.last] at hpc ⊢
    · rw [h.threads v hv]
      exact hs v
  log := by
    obtain ⟨new, hlog, hread⟩ := h.log
    refine ⟨new, hlog, fun entry hentry last hlast => ?_⟩
    have := hread entry hentry
    cases entry <;> simp [Entry.isRead, Entry.success] at this hlast

theorem refl (s : System τ β) : Follows calm s s := of_reads (.refl s)

theorem trans (h : Follows calm s u) (h' : Follows calm u v) : Follows calm s v where
  error := h'.error ∘ h.error
  requests := h.requests.trans h'.requests
  same := fun hcalm =>
    ⟨(h'.same hcalm).1.trans (h.same hcalm).1, (h'.same hcalm).2.trans (h.same hcalm).2⟩
  bounded := h'.bounded ∘ h.bounded
  log := by
    obtain ⟨new, hlog, hnew⟩ := h.log
    obtain ⟨new', hlog', hnew'⟩ := h'.log
    refine ⟨new ++ new', by rw [hlog', hlog, List.append_assoc], ?_⟩
    intro entry hentry last hlast
    rcases List.mem_append.mp hentry with hmem | hmem
    · exact (hnew entry hmem last hlast).trans h'.requests
    · exact hnew' entry hmem last hlast

theorem weaken (h : Follows calm s u) (hle : calm' → calm) : Follows calm' s u :=
  { h with same := h.same ∘ hle }

/-- Only the two halves of the connection change. -/
theorem of_conn {conn : XcbConnection τ β}
    (herror : s.conn.hasError = true → conn.hasError = true) :
    Follows calm s { s with conn := conn } where
  error := herror
  requests := Nat.le_refl _
  same := fun _ => ⟨rfl, rfl⟩
  bounded := id
  log := ⟨[], (List.append_nil _).symm, nofun⟩

theorem setInp (s : System τ β) (inp : XcbIn τ β) : Follows calm s (s.setInp inp) := of_conn id

theorem setOut (s : System τ β) (out : XcbOut) : Follows calm s (s.setOut out) := of_conn id

theorem shutdown (s : System τ β) : Follows calm s s.shutdown := of_conn fun _ => rfl

theorem note {entry : Entry β} (h : ∀ last ∈ entry.success, last ≤ s.requests.length) :
    Follows calm s (s.note entry) where
  error := id
  requests := Nat.le_refl _
  same := fun _ => ⟨rfl, rfl⟩
  bounded := id
  log := ⟨[entry], rfl, fun _ hentry => by rw [List.mem_singleton.mp hentry]; exact h⟩

theorem check (s : System τ β) (a : QueueAssertion) (p : Prop) [Decidable p] :
    Follows calm s (s.check a p) :=
  note nofun

variable [DecidableEq τ] {t : τ}

theorem setPc {pc : Pc} (h : pc.last ≤ s.requests.length) : Follows calm s (s.setPc t pc) where
  error := id
  requests := Nat.le_refl _
  same := fun _ => ⟨rfl, rfl⟩
  bounded := fun hs v => by
    by_cases hv : v = t
    · subst hv
      rw [threads_setPc_self]
      exact h
    · rw [threads_setPc_of_ne s hv]
      exact hs v
  log := ⟨[], (List.append_nil _).symm, nofun⟩

theorem leave {entry : Entry β} (h : ∀ last ∈ entry.success, last ≤ s.requests.length) :
    Follows calm s (s.leave t entry) :=
  (setPc (Nat.zero_le _)).trans (note h)

end Follows

variable [DecidableEq τ]

/-! ### Writing -/

section writing

variable {e : Env τ β} {t : τ} {f : Flusher} {sender : Sender} {req : PreparedRequest}

omit [DecidableEq τ] in
theorem hasError_loseEntries {c : XcbConnection τ β} (h : c.hasError = true) (old : ℕ)
    (noMemory : ℕ → Bool) : (c.loseEntries old noMemory).hasError = true := by
  simp [XcbConnection.loseEntries, h]

omit [DecidableEq τ] in
theorem follows_takeSocket (s : System τ β) (e : Env τ β) (flags : Flags) :
    Follows calm s (s.takeSocket e flags) := by
  have htake : Follows calm s { s with
      conn := (s.conn.handOver s.handoffs flags).loseEntries s.conn.inp.pendingReplies.length
        e.noMemory
      handoffs := s.handoffs + 1 } :=
    ⟨fun h => hasError_loseEntries (c := s.conn.handOver s.handoffs flags) h _ _, Nat.le_refl _,
      fun _ => ⟨rfl, rfl⟩, id, [], (List.append_nil _).symm, nofun⟩
  exact htake.trans (.check _ _ _)

theorem follows_afterFlush (hf : f.last ≤ s.requests.length) (ret : Bool) :
    Follows calm s (s.afterFlush e t f ret) := by
  cases f with
  | flush target =>
    refine .leave fun last hlast => ?_
    cases ret with
    | true =>
      cases hlast
      exact hf
    | false => cases hlast
  | takeSocket flags =>
    cases ret with
    | true =>
      have htake : Follows calm s (s.takeSocket e flags) := follows_takeSocket s e flags
      refine htake.trans (.leave fun last hlast => ?_)
      cases hlast
      exact htake.requests
    | false => exact .leave nofun
  | waitForReply request =>
    cases ret with
    | true => exact .of_serves (serves_startReply s e t request)
    | false =>
      exact .of_serves (.of_reads (reads_wakeUpNextReader s e) (.leave (t := t) _ rfl))

theorem follows_afterSend (hsender : sender.last ≤ s.requests.length) (ret : Bool) :
    Follows calm s (s.afterSend e t sender ret) := by
  cases sender with
  | send number last =>
    have hsent : ∀ cookie : BitVec 32,
        ∀ k ∈ (Entry.sent cookie last : Entry β).success, k ≤ s.requests.length := by
      intro cookie k hk
      simp only [Entry.success] at hk
      split at hk
      · cases hk
        exact hsender
      · cases hk
    cases ret with
    | true => exact .leave (hsent _)
    | false => exact (Follows.shutdown s).trans (.leave (hsent _))
  | writev last =>
    refine .leave fun k hk => ?_
    cases ret with
    | true =>
      cases hk
      exact hsender
    | false => cases hk
  | flusher f => exact follows_afterFlush hsender ret

theorem follows_waitWrite (hsender : sender.last ≤ s.requests.length) (vector : List Iovec) :
    Follows calm s (s.waitWrite t sender vector) := by
  unfold waitWrite
  split
  · exact .setPc hsender
  · exact ((Follows.setInp s _).trans (.setOut _ _)).trans (.setPc hsender)

omit [DecidableEq τ] in
theorem follows_writeVec (s : System τ β) (vector : List Iovec) {w : WriteResult}
    (h : calm → ∀ n, w ≠ .wrote n) : Follows calm s (s.writeVec vector w).1 := by
  have hcheck : Follows calm s (s.check .writeVecQueue (s.conn.out.queueLen = 0)) := .check s _ _
  cases w with
  | again => exact hcheck
  | failed => exact hcheck.trans (.shutdown _)
  | wrote n =>
    have hwrite : Follows calm (s.check .writeVecQueue (s.conn.out.queueLen = 0))
        { s.check .writeVecQueue (s.conn.out.queueLen = 0) with
          socket := s.socket ++ (gather s.conn.out.queue vector).take n } :=
      ⟨id, Nat.le_refl _, fun hcalm => absurd rfl (h hcalm n), id, [], (List.append_nil _).symm,
        nofun⟩
    exact (hcheck.trans hwrite).trans (.check _ _ _)

/-- A thread that polls writes if `poll`, `_xcb_in_read` and `writev` let it. -/
theorem follows_pollWrite (s : System τ β) {failed : Bool} (vector : List Iovec)
    (h : calm → ¬ e.Writes failed) : Follows calm s (s.pollWrite e failed vector).1 := by
  have hread : Follows calm s (s.pollRead e failed).1 := .of_reads (reads_pollRead s e failed)
  unfold pollWrite
  dsimp only
  split
  · next hgo =>
    rw [Bool.and_eq_true, pollRead_snd, Bool.and_eq_true, Bool.not_eq_true',
      Bool.not_eq_true'] at hgo
    exact hread.trans (follows_writeVec _ vector fun hcalm n hn =>
      h hcalm ⟨hgo.2.1, hgo.1, hgo.2.2, n, hn⟩)
  · exact hread

theorem follows_outSend (hsender : sender.last ≤ s.requests.length) (ret : Bool)
    (vector : List Iovec) : Follows calm s (s.outSend e t sender ret vector) := by
  unfold outSend
  split
  · exact follows_waitWrite hsender vector
  · have hwake : Follows calm s
        ((s.setOut { s.conn.out with requestWritten := s.conn.out.request }).wakeUpNextReader e) :=
      (Follows.setOut s _).trans (.of_reads (reads_wakeUpNextReader _ e))
    exact hwake.trans (follows_afterSend (hsender.trans hwake.requests) ret)

theorem follows_finishWrite (hsender : sender.last ≤ s.requests.length) {failed : Bool}
    {vector : List Iovec} (h : calm → ¬ e.Writes failed) :
    Follows calm s (s.finishWrite e t failed sender vector) := by
  have hidle : Follows calm s ((s.pollWrite e failed vector).1.endWrite.endRead.setPc t .idle) :=
    (((follows_pollWrite s vector h).trans (.setOut _ _)).trans (.setInp _ _)).trans
      (.setPc (Nat.zero_le _))
  exact hidle.trans (follows_outSend (hsender.trans hidle.requests) _ _)

theorem follows_awaitWritten (hf : f.last ≤ s.requests.length) (request : BitVec 64) (n : ℕ) :
    Follows calm s (s.awaitWritten e t f request n) := by
  unfold awaitWritten
  split
  · exact .setPc hf
  · have hcheck : Follows calm s (s.check .flushToWritten
      (sequenceCompare s.conn.out.requestWritten request ≥ 0)) := .check s _ _
    exact hcheck.trans (follows_afterFlush (hf.trans hcheck.requests) true)

theorem follows_flushTo (hf : f.last ≤ s.requests.length) (request : BitVec 64) :
    Follows calm s (s.flushTo e t f request) := by
  have hcheck : Follows calm s (s.check .flushToRequest
    (sequenceCompare request s.conn.out.request ≤ 0)) := .check s _ _
  unfold flushTo
  dsimp only
  split
  · exact hcheck.trans (follows_afterFlush (hf.trans hcheck.requests) true)
  · split
    · have htake := hcheck.trans (.setOut _ s.conn.out.takeQueue.1)
      have hlast : (Sender.flusher f).last ≤ (_ : System τ β).requests.length :=
        hf.trans htake.requests
      exact htake.trans (follows_outSend hlast true _)
    · exact hcheck.trans (follows_awaitWritten (hf.trans hcheck.requests) request _)

omit [DecidableEq τ] in
theorem follows_numberRequest (s : System τ β) (e : Env τ β) (req : PreparedRequest)
    (h : ¬ calm) : Follows calm s (s.numberRequest e req) := by
  have hlength : s.requests.length ≤ (s.numberRequest e req).requests.length := by
    simp only [numberRequest, List.length_append]
    omega
  refine ⟨fun herror => hasError_loseEntries ?_ _ _, hlength, fun hcalm => absurd hcalm h,
    fun hs t => (hs t).trans hlength, [], (List.append_nil _).symm, nofun⟩
  rw [numberRequest_fst]
  exact herror

omit [DecidableEq τ] in
theorem follows_numberOwner (s : System τ β) {requests : List (List UInt8)}
    (h : calm → requests = []) : Follows calm s (s.numberOwner requests) := by
  have hlength : s.requests.length ≤ (s.numberOwner requests).requests.length := by
    simp only [numberOwner, List.length_append]
    omega
  refine ⟨id, hlength, fun hcalm => ⟨?_, rfl⟩, fun hs t => (hs t).trans hlength, [],
    (List.append_nil _).symm, nofun⟩
  simp [numberOwner, h hcalm]

theorem follows_writeBlock (s : System τ β) (number : BitVec 64) (vector : List (List UInt8)) :
    Follows calm s (s.writeBlock e t number vector) := by
  unfold writeBlock
  dsimp only
  have hblock : Follows calm s (s.setOut (s.conn.out.writeBlock vector).1) := .setOut s _
  split
  · refine hblock.trans (.leave fun last hlast => ?_)
    simp only [Entry.success] at hlast
    split at hlast
    · cases hlast
      exact Nat.le_refl _
    · cases hlast
  · exact hblock.trans (follows_outSend (Nat.le_refl _) true _)

theorem follows_sendRequest (s : System τ β) (req : PreparedRequest) (h : ¬ calm) :
    Follows calm s (s.sendRequest e t req) := by
  have hnote : Follows calm s
      (s.note (.numbered s.conn.out.writing s.conn.out.returnSocket.isSome)) := .note nofun
  exact (hnote.trans (follows_numberRequest _ e req h)).trans (follows_writeBlock _ _ _)

theorem follows_afterSocket (s : System τ β) {taker : Taker}
    (h : calm → ∀ req, taker ≠ .send req) : Follows calm s (s.afterSocket e t taker) := by
  cases taker with
  | send req => exact follows_sendRequest s req fun hcalm => h hcalm req rfl
  | takeSocket flags => exact follows_flushTo (Nat.zero_le _) _

theorem follows_getSocketBack (s : System τ β) {taker : Taker}
    (h : calm → s.conn.out.returnSocket = none → ∀ req, taker ≠ .send req) :
    Follows calm s (s.getSocketBack e t taker) := by
  unfold getSocketBack
  split
  · next hnone => exact follows_afterSocket s fun hcalm => h hcalm hnone
  · next handoff hsome =>
    split
    · exact .setPc (Nat.zero_le _)
    · have hnote : Follows calm _
          ((s.setOut { s.conn.out with socketMoving := true }).note (.callback handoff)) :=
        (Follows.setOut s _).trans (.note nofun)
      exact hnote.trans (.setPc (Nat.zero_le _))

theorem follows_awaitTurn (s : System τ β) {req : PreparedRequest}
    (h : calm → ¬ (s.conn.out.writing = 0 ∧ s.conn.out.returnSocket = none)) :
    Follows calm s (s.awaitTurn e t req) := by
  unfold awaitTurn
  split
  · exact .setPc (Nat.zero_le _)
  · next hwriting =>
    exact follows_getSocketBack s fun hcalm hnone => absurd ⟨not_not.mp hwriting, hnone⟩ (h hcalm)

theorem follows_writev (s : System τ β) (vector : List (List UInt8))
    {requests : List (List UInt8)} (h : calm → requests = []) :
    Follows calm s (s.writev e t vector requests) := by
  refine (follows_numberOwner s h).trans (follows_outSend ?_ true _)
  show (if requests = [] then 0 else (s.requests ++ requests).length) ≤
    (s.requests ++ requests).length
  split
  · exact Nat.zero_le _
  · exact Nat.le_refl _

end writing

/-! ### Steps -/

/-- Is the thread about to number a request? -/
def Numbers (s : System τ β) (t : τ) : Prop :=
  match s.threads t with
  | .lock (.send _) | .awaitTurn _ => s.conn.out.writing = 0 ∧ s.conn.out.returnSocket = none
  | .awaitSocket (.send _) => s.conn.out.returnSocket = none
  | .callback (.send _) => True
  | .lock (.writev _ requests) => requests ≠ []
  | _ => False

/-- Is the thread about to write? -/
def Writes (s : System τ β) (t : τ) (e : Env τ β) : Prop :=
  match s.threads t with
  | .pollOut failed _ _ => e.Writes failed
  | _ => False

/-- A thread inside a call goes on as if nothing had happened. -/
def GoesOn (s : System τ β) : Action τ β → Prop
  | .run t e => s.Numbers t ∨ s.Writes t e
  | _ => False

instance (s : System τ β) (t : τ) : Decidable (s.Numbers t) := by
  dsimp only [Numbers]
  generalize s.threads t = pc
  refine Pc.casesOn pc ?_ (fun call => Call.casesOn call ?_ ?_ ?_ ?_ ?_ ?_ ?_ ?_ ?_) ?_
    (fun taker => Taker.casesOn taker ?_ ?_) (fun taker => Taker.casesOn taker ?_ ?_) ?_ ?_ ?_ ?_ ?_
      <;> intros <;> infer_instance

instance (s : System τ β) (t : τ) (e : Env τ β) : Decidable (s.Writes t e) := by
  dsimp only [Writes]
  generalize s.threads t = pc
  refine Pc.casesOn pc ?_ ?_ ?_ ?_ ?_ ?_ ?_ ?_ ?_ ?_ <;> intros <;> infer_instance

instance (s : System τ β) (a : Action τ β) : Decidable (s.GoesOn a) := by
  refine Action.casesOn a ?_ ?_ ?_ <;> intros <;> dsimp only [GoesOn] <;> infer_instance

theorem follows_start {e : Env τ β} {t : τ} (s : System τ β) {call : Call PreparedRequest}
    (hpc : u.threads t = .lock call) (hout : s.conn.out = u.conn.out) :
    Follows (¬ u.Numbers t) s (s.start e t call) := by
  cases call with
  | send req =>
    refine follows_awaitTurn s fun hcalm hboth => hcalm ?_
    rw [hout] at hboth
    simpa only [Numbers, hpc] using hboth
  | flush => exact follows_flushTo (Nat.le_refl _) _
  | takeSocket flags => exact follows_getSocketBack s fun _ _ _ => nofun
  | writev vector requests =>
    refine follows_writev s vector fun hcalm => ?_
    simpa only [Numbers, hpc, not_not] using hcalm
  | waitForReply request =>
    unfold start
    dsimp only
    split
    · exact .of_serves (serves_startReply s e t request)
    · exact follows_flushTo (Nat.zero_le _) _
  | pollForReply request => exact .of_serves (serves_pollForReply s t request)
  | discardReply request => exact .of_serves (serves_discardReply s t request)
  | waitForEvent => exact .of_serves (serves_waitEvent s e t)
  | pollForEvent => exact .of_serves (serves_pollEvent s e t)

omit [DecidableEq τ] in
theorem follows_refuse (s : System τ β) (call : Call SendCall) :
    Follows calm s (s.refuse call) := by
  cases call with
  | send => exact .note fun _ hlast => by simp [Entry.success] at hlast
  | _ => exact .note nofun

theorem follows_enter (s : System τ β) (t : τ) (call : Call SendCall) :
    Follows calm s (s.enter t call) := by
  cases call with
  | send call =>
    unfold enter
    dsimp only
    split
    · exact .setPc (Nat.zero_le _)
    · exact (Follows.shutdown s).trans (.note fun _ hlast => by simp [Entry.success] at hlast)
  | discardReply request =>
    unfold enter
    dsimp only
    split
    · exact .note nofun
    · exact .setPc (Nat.zero_le _)
  | _ => exact .setPc (Nat.zero_le _)

theorem follows_call {t : τ} {call : Call SendCall} (h : s.call t call = some u) :
    Follows calm s u := by
  unfold System.call at h
  split at h
  · split at h
    · split at h <;> cases h
      · exact follows_refuse s call
      · exact follows_enter s t call
    · cases h
  · cases h

theorem follows_pollFails {t : τ} (hs : s.Bounded) (h : s.pollFails t = some u) :
    Follows calm s u := by
  unfold System.pollFails at h
  have ht := hs t
  split at h
  · next hpc =>
    cases h
    rw [hpc] at ht
    exact (Follows.shutdown s).trans (.setPc ht)
  · cases h
    exact (Follows.shutdown s).trans (.setPc (Nat.zero_le _))
  · cases h

variable [Fintype τ]

theorem follows_run {t : τ} {e : Env τ β} (hs : s.Bounded) (h : s.run t e = some u) :
    Follows (¬ s.GoesOn (.run t e)) s u := by
  have ht := hs t
  have hidle : Follows (¬ s.GoesOn (.run t e)) s (s.setPc t .idle) := .setPc (Nat.zero_le _)
  have hcalm : ¬ s.GoesOn (.run t e) → ¬ s.Numbers t ∧ ¬ s.Writes t e := fun hgo =>
    ⟨fun hnumbers => hgo (.inl hnumbers), fun hwrites => hgo (.inr hwrites)⟩
  unfold run at h
  split at h
  · cases h
  · next call hpc =>
    cases h
    have hstart : Follows (¬ s.Numbers t) (s.setPc t .idle) ((s.setPc t .idle).start e t call) :=
      follows_start _ hpc rfl
    exact hidle.trans (hstart.weaken fun hgo => (hcalm hgo).1)
  · next req hpc =>
    cases h
    refine hidle.trans (follows_awaitTurn _ fun hgo hboth => (hcalm hgo).1 ?_)
    rw [Numbers, hpc]
    exact hboth
  · next taker hpc =>
    cases h
    refine hidle.trans (follows_getSocketBack _ fun hgo hnone req hreq => (hcalm hgo).1 ?_)
    rw [Numbers, hpc, hreq]
    exact hnone
  · next taker hpc =>
    split at h
    · cases h
      have hnote : Follows (¬ s.GoesOn (.run t e)) s
          (s.note (.callbackReturned (s.conn.out.returnSocket.getD 0))) := .note nofun
      have hback : Follows (¬ s.GoesOn (.run t e)) s (s.endCallback.setPc t .idle) :=
        ((hnote.trans (.setInp _ _)).trans (.setOut _ _)).trans (.setPc (Nat.zero_le _))
      refine hback.trans (follows_afterSocket _ fun hgo req hreq => (hcalm hgo).1 ?_)
      rw [Numbers, hpc, hreq]
      trivial
    · cases h
  · next hpc =>
    cases h
    rw [hpc] at ht
    exact hidle.trans (follows_outSend (ht.trans hidle.requests) true _)
  · next hpc =>
    split at h
    · cases h
      rw [hpc] at ht
      refine follows_finishWrite ht fun hgo hwrites => (hcalm hgo).2 ?_
      rw [Writes, hpc]
      exact hwrites
    · cases h
  · next hpc =>
    cases h
    rw [hpc] at ht
    exact hidle.trans (follows_awaitWritten (ht.trans hidle.requests) _ _)
  · cases h
    exact hidle.trans (.of_serves (serves_afterRead _ e t _ true))
  · cases h
    exact .of_serves (serves_finishRead s e t _ _)

/-- **One step**: what it does to the requests, the socket and the log. -/
theorem follows_step {a : Action τ β} (hs : s.Bounded) (h : s.step a = some u) :
    Follows (¬ s.GoesOn a) s u := by
  cases a with
  | call t call => exact follows_call h
  | pollFails t => exact follows_pollFails hs h
  | run t e => exact follows_run hs h

/-! ### The result -/

/-- What an error ought to mean: from `s` to `u` the connection stays in error, no byte is handed to
the socket, and no call reports success for a request that was not numbered in `s`. -/
structure Sticky (s u : System τ β) : Prop where
  error : u.conn.hasError = true
  socket : u.socket = s.socket
  success : ∃ new, u.log = s.log ++ new ∧
    ∀ entry ∈ new, ∀ last ∈ entry.success, last ≤ s.requests.length

/-- While the connection is in error no thread goes on. -/
def Halts (s : System τ β) (a : Action τ β) : Prop := s.conn.hasError = true → ¬ s.GoesOn a

instance (s : System τ β) (a : Action τ β) : Decidable (s.Halts a) :=
  inferInstanceAs (Decidable (s.conn.hasError = true → ¬ s.GoesOn a))

theorem bounded_of_reach {size : ℕ} {maximum : BitVec 16}
    {ok : System τ β → Action τ β → Prop}
    (h : Transition.Reach System.step ok (System.init size maximum) s) : s.Bounded :=
  h.invariant (fun _ _ _ hs _ hstep => (follows_step hs hstep).bounded hs) fun _ => Nat.le_refl 0

/-- **Errors are sticky**, as far as threads inside a call do not go on. -/
theorem sticky_of_reach {size : ℕ} {maximum : BitVec 16}
    (h : Transition.Reach System.step (fun _ _ => True) (System.init size maximum) s)
    (herror : s.conn.hasError = true) :
    (∀ u, Transition.Reach System.step (fun _ _ => True) s u → u.conn.hasError = true) ∧
      ∀ u, Transition.Reach System.step Halts s u → s.Sticky u := by
  have hbounded := bounded_of_reach h
  constructor
  · intro u hrun
    exact (hrun.invariant (P := fun u => u.Bounded ∧ u.conn.hasError = true)
      (fun _ _ _ hu _ hstep => ⟨(follows_step hu.1 hstep).bounded hu.1,
        (follows_step hu.1 hstep).error hu.2⟩) ⟨hbounded, herror⟩).2
  · intro u hrun
    have hfollows : Follows True s u := by
      refine hrun.invariant (P := Follows True s) ?_ (.refl s)
      intro v a w hv hok hstep
      exact hv.trans ((follows_step (hv.bounded hbounded) hstep).weaken fun _ =>
        hok (hv.error herror))
    obtain ⟨new, hlog, hnew⟩ := hfollows.log
    obtain ⟨hrequests, hsocket⟩ := hfollows.same trivial
    rw [hrequests] at hnew
    exact ⟨hfollows.error herror, hsocket, new, hlog, hnew⟩

/-! ### A thread that goes on -/

/-- Nothing to read, and nothing written. -/
def stalled : Env (Fin 2) Unit where
  pollin := false
  pollout := false
  recv := ⟨[], none, false⟩
  writev := .again
  noMemory := fun _ => false
  order := [0, 1]
  complete := mem_range_two

/-- Thread 0 sends a request and flushes it; thread 1 waits for its turn to send another one; the
`poll` of thread 0 fails. -/
def failing : List (Action (Fin 2) Unit) :=
  [.call 0 (.send (wordCall true)), .run 0 stalled, .call 0 .flush, .run 0 stalled,
    .call 1 (.send (wordCall true)), .run 1 stalled, .pollFails 0]

/-- Thread 0 gives up, and is told so; thread 1 is still waiting. -/
theorem sticky_failing :
    ∃ s u : System (Fin 2) Unit, failing.foldlM System.step (System.init 16384 65535) = some s ∧
      s.conn.hasError = true ∧ s.step (.run 0 stalled) = some u ∧ u.requests.length = 1 ∧
        s.Sticky u := by
  have hrun : ((failing.foldlM System.step (System.init 16384 65535)).bind fun s =>
      (Transition.checked System.step Halts s (.run 0 stalled)).map fun u =>
        (s.conn.hasError, u.requests.length)) = some (true, 1) := by
    decide +kernel
  obtain ⟨s, hs, hrest⟩ := Option.bind_eq_some_iff.mp hrun
  obtain ⟨u, hu, hfound⟩ := Option.map_eq_some_iff.mp hrest
  obtain ⟨herror, hlength⟩ := Prod.mk.inj hfound
  obtain ⟨hhalts, hstep⟩ := Transition.of_checked_eq_some hu
  exact ⟨s, u, hs, herror, hstep, hlength,
    (sticky_of_reach (.of_foldlM (fun _ _ _ => trivial) hs) herror).2 u (.single hhalts hstep)⟩

/-- Thread 0 gives up, and thread 1 is successful. -/
theorem not_sticky_awaitTurn :
    ∃ s u : System (Fin 2) Unit,
      Transition.Reach System.step (fun _ _ => True) (System.init 16384 65535) s ∧
        s.conn.hasError = true ∧ Transition.Reach System.step (fun _ _ => True) s u ∧
          ¬ s.Sticky u := by
  have hrun : ((failing.foldlM System.step (System.init 16384 65535)).bind fun s =>
      ([.run 0 stalled, .run 1 stalled].foldlM System.step s).map fun u =>
        s.conn.hasError && (u.log.drop s.log.length).any fun entry =>
          entry.success.any fun last => s.requests.length < last) = some true := by
    decide +kernel
  obtain ⟨s, hs, hrest⟩ := Option.bind_eq_some_iff.mp hrun
  obtain ⟨u, hu, hfound⟩ := Option.map_eq_some_iff.mp hrest
  rw [Bool.and_eq_true, List.any_eq_true] at hfound
  obtain ⟨herror, entry, hentry, hlast⟩ := hfound
  refine ⟨s, u, .of_foldlM (fun _ _ _ => trivial) hs, herror, .of_foldlM (fun _ _ _ => trivial) hu,
    ?_⟩
  rintro ⟨-, -, new, hlog, hnew⟩
  rw [hlog, List.drop_left] at hentry
  obtain ⟨last, hsuccess, hlt⟩ := (Option.any_eq_true _ _).mp hlast
  exact absurd (hnew entry hentry last hsuccess) (Nat.not_le.mpr (of_decide_eq_true hlt))

end System

end Xcb
