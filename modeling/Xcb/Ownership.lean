import Xcb.Output
import Xcb.Sequence
import Xcb.Readers

/-!
# Whose turn it is to write

The queue belongs to xcb until an owner takes the socket, and to nobody while a thread writes what
it held. `xcb_send_request` has two things to wait for, that nobody writes and that xcb has the
socket, and it waits for one after the other: while it waits for the second, the first may cease to
hold. `xcb_take_socket` waits for the writing of others, and the queue may be filled or the socket
be taken while it waits. In runs in which neither happens, the queue and the socket change hands in
order.

## Main definitions

* `Turn` — who is writing
* `System.Orderly` — the invariant
* `System.Rechecks` — the two waits go wrong in no step

## Main results

* `System.Orderly.outSend`, `System.Orderly.afterSocket` — where turns end and begin
* `System.ends_step` — one stretch of code
-/

namespace Xcb

variable {τ β : Type}

/-- Who is writing: nobody, a thread in `poll`, or the thread that has the lock. -/
inductive Turn (τ : Type)
  | quiet
  | poll (t : τ)
  | held

/-- `c->out.writing` -/
def Turn.writing : Turn τ → ℕ
  | .poll _ => 1
  | _ => 0

def Sender.isWritev : Sender → Bool
  | .writev _ => true
  | _ => false

theorem Pc.isWritev_pollOut (failed : Bool) (sender : Sender) (vector : List Iovec) :
    (Pc.pollOut failed sender vector).isWritev = sender.isWritev := by
  cases sender <;> rfl

theorem Pc.isWritev_awaitWriter (sender : Sender) (vector : List Iovec) :
    (Pc.awaitWriter sender vector).isWritev = sender.isWritev := by
  cases sender <;> rfl

def Pc.isPollOut : Pc → Bool
  | .pollOut _ _ _ => true
  | _ => false

def Pc.isCallback : Pc → Bool
  | .callback _ => true
  | _ => false

/-- What a thread may do while the socket is owned, or while it is not. -/
def Pc.Orderly (owned : Bool) : Pc → Prop
  | .pollOut _ sender _ => sender.isWritev = owned
  | .awaitWriter sender _ => sender.isWritev = true ∧ owned = true
  | .lock (.writev _ _) | .callback _ => owned = true
  | _ => True

/-- The thread neither writes nor owns anything. -/
def Pc.isCalm : Pc → Bool
  | .pollOut _ _ _ | .awaitWriter _ _ | .lock (.writev _ _) | .callback _ => false
  | _ => true

theorem Pc.isCalm_of_isReader {pc : Pc} (h : pc.isReader = true) : pc.isCalm = true := by
  cases pc <;> first | rfl | cases h

theorem Pc.Orderly.of_isCalm {pc : Pc} (h : pc.isCalm = true) (owned : Bool) :
    pc.Orderly owned := by
  cases pc with
  | lock call => cases call <;> trivial
  | _ => trivial

theorem Pc.isPollOut_of_isCalm {pc : Pc} (h : pc.isCalm = true) : pc.isPollOut = false := by
  cases pc <;> first | rfl | cases h

theorem Pc.isCallback_of_isCalm {pc : Pc} (h : pc.isCalm = true) : pc.isCallback = false := by
  cases pc <;> first | rfl | cases h

/-- The call and the return of a `return_socket` callback. -/
def Entry.isCallback (handoff : ℕ) : Entry β → Bool
  | .callback h => h == handoff
  | _ => false

def Entry.isReturn (handoff : ℕ) : Entry β → Bool
  | .callbackReturned h => h == handoff
  | _ => false

/-- What `xcb_take_socket` asserts and returns. -/
def Entry.isTake : Entry β → Bool
  | .assertion .takeSocket _ | .took (some _) _ => true
  | _ => false

/-- A request is numbered when nobody writes and nobody owns the socket, and a thread that writes
finds the queue empty. -/
def Entry.Orderly : Entry β → Prop
  | .numbered writing owned => writing = 0 ∧ owned = false
  | .assertion .writeVecQueue holds => holds = true
  | _ => True

/-- None of these. -/
def Entry.isPlain : Entry β → Bool
  | .numbered _ _ | .assertion .writeVecQueue _ | .assertion .takeSocket _ => false
  | .callback _ | .callbackReturned _ | .took (some _) _ => false
  | _ => true

theorem Entry.isPlain_of_isRead {entry : Entry β} (h : entry.isRead = true) :
    entry.isPlain = true := by
  cases entry <;> first | rfl | cases h

theorem Entry.Orderly.of_isPlain {entry : Entry β} (h : entry.isPlain = true) : entry.Orderly := by
  cases entry with
  | assertion a holds => cases a <;> trivial
  | numbered writing owned => cases h
  | _ => trivial

theorem Entry.isTake_of_isPlain {entry : Entry β} (h : entry.isPlain = true) :
    entry.isTake = false := by
  cases entry with
  | assertion a holds => cases a <;> first | rfl | cases h
  | took sent last => cases sent <;> first | rfl | cases h
  | _ => rfl

theorem Entry.isCallback_of_isPlain {entry : Entry β} (h : entry.isPlain = true) (handoff : ℕ) :
    entry.isCallback handoff = false := by
  cases entry <;> first | rfl | cases h

theorem Entry.isReturn_of_isPlain {entry : Entry β} (h : entry.isPlain = true) (handoff : ℕ) :
    entry.isReturn handoff = false := by
  cases entry <;> first | rfl | cases h

namespace System

/-- How often the callback of a handoff was called. -/
def calls (s : System τ β) (handoff : ℕ) : ℕ := s.log.countP (Entry.isCallback handoff)

/-- How often it has returned. -/
def returns (s : System τ β) (handoff : ℕ) : ℕ := s.log.countP (Entry.isReturn handoff)

/-- Each owner is called back once, and then there can be another one. -/
structure CallsBack (s : System τ β) : Prop where
  former : ∀ h < s.handoffs, s.conn.out.returnSocket ≠ some h → s.calls h = 1 ∧ s.returns h = 1
  current : ∀ h, s.conn.out.returnSocket = some h → h + 1 = s.handoffs ∧ s.returns h = 0 ∧
    s.calls h = if s.conn.out.socketMoving then 1 else 0
  future : ∀ h, s.handoffs ≤ h → s.calls h = 0 ∧ s.returns h = 0
  still : s.conn.out.returnSocket = none → s.conn.out.socketMoving = false

/-- The queue and the socket are in order, between two stretches of code or within one. -/
structure Orderly (turn : Turn τ) (s : System τ β) : Prop where
  writing : s.conn.out.writing = turn.writing
  empty : turn ≠ .quiet ∨ s.conn.out.returnSocket ≠ none → s.conn.out.queueLen = 0
  clean : s.conn.out.returnSocket = none → s.conn.out.requestWritten = s.conn.out.request →
    turn = .quiet ∧ s.conn.out.queueLen = 0
  polling : ∀ t, (s.threads t).isPollOut = true ↔ turn = .poll t
  pcs : ∀ t, (s.threads t).Orderly s.conn.out.returnSocket.isSome
  callback : ∀ t u, (s.threads t).isCallback = true → (s.threads u).isCallback = true → t = u
  moving : ∀ t, (s.threads t).isCallback = true → s.conn.out.socketMoving = true
  callsBack : s.CallsBack
  log : ∀ entry ∈ s.log, entry.Orderly

/-- Since the log had `n` entries nobody has taken the socket. -/
structure Silent (n : ℕ) (s : System τ β) : Prop where
  le : n ≤ s.log.length
  silent : ∀ entry ∈ s.log.drop n, entry.isTake = false

/-- What a thread that takes the socket finds. If `p`, then the assertion holds as well. -/
def Tells (p : Prop) (s : System τ β) : Entry β → Prop
  | .took (some sent) _ => s.conn.out.queueLen = 0 ∧ s.conn.out.request = sent ∧
      (p → s.conn.out.requestWritten = sent) ∧
      ∃ h, s.conn.out.returnSocket = some h ∧ h + 1 = s.handoffs
  | .assertion .takeSocket holds => p → holds = true
  | _ => True

/-- After a stretch of code that began when the log had `n` entries. -/
structure Ends (p : Prop) (n : ℕ) (s : System τ β) : Prop where
  orderly : ∃ turn, turn ≠ .held ∧ s.Orderly turn
  le : n ≤ s.log.length
  tells : ∀ entry ∈ s.log.drop n, s.Tells p entry

variable {s u : System τ β} {p : Prop} {n : ℕ} {turn : Turn τ} {t : τ}

/-! ### What stays true -/

/-- Thread `t` has moved on, and nothing that the threads share has changed. -/
structure Passes (t : τ) (s u : System τ β) : Prop where
  out : u.conn.out = s.conn.out
  handoffs : u.handoffs = s.handoffs
  others : ∀ v, v ≠ t → u.threads v = s.threads v
  calm : (s.threads t).isCalm = true → (u.threads t).isCalm = true
  log : ∃ new, u.log = s.log ++ new ∧ ∀ entry ∈ new, entry.isPlain = true

theorem Passes.trans {v : System τ β} (h : Passes t s u) (h' : Passes t u v) : Passes t s v where
  out := h'.out.trans h.out
  handoffs := h'.handoffs.trans h.handoffs
  others := fun w hw => (h'.others w hw).trans (h.others w hw)
  calm := h'.calm ∘ h.calm
  log := by
    obtain ⟨new, hlog, hplain⟩ := h.log
    obtain ⟨new', hlog', hplain'⟩ := h'.log
    refine ⟨new ++ new', by rw [hlog', hlog, List.append_assoc], fun entry hentry => ?_⟩
    rcases List.mem_append.mp hentry with hmem | hmem
    · exact hplain entry hmem
    · exact hplain' entry hmem

theorem Passes.of_reads (h : Reads s u) : Passes t s u where
  out := h.out
  handoffs := h.handoffs
  others := fun v _ => by rw [h.threads]
  calm := by rw [h.threads]; exact id
  log := ⟨[], by rw [h.log, List.append_nil], nofun⟩

theorem Passes.of_serves (h : Serves t s u) : Passes t s u where
  out := h.out
  handoffs := h.handoffs
  others := h.threads
  calm := fun _ => Pc.isCalm_of_isReader h.pc
  log := by
    obtain ⟨new, hlog, hread⟩ := h.log
    exact ⟨new, hlog, fun entry hentry => Entry.isPlain_of_isRead (hread entry hentry)⟩

theorem Passes.note {entry : Entry β} (h : entry.isPlain = true) : Passes t s (s.note entry) where
  out := rfl
  handoffs := rfl
  others := fun _ _ => rfl
  calm := id
  log := ⟨[entry], rfl, fun _ hmem => by rw [List.mem_singleton.mp hmem]; exact h⟩

theorem CallsBack.of_log (h : s.CallsBack)
    (hreturn : u.conn.out.returnSocket = s.conn.out.returnSocket)
    (hmoving : u.conn.out.socketMoving = s.conn.out.socketMoving)
    (hhandoffs : u.handoffs = s.handoffs)
    (hcalls : ∀ h, u.calls h = s.calls h) (hreturns : ∀ h, u.returns h = s.returns h) :
    u.CallsBack where
  former := by
    intro k hk hne
    rw [hcalls, hreturns]
    exact h.former k (hhandoffs ▸ hk) (hreturn ▸ hne)
  current := by
    intro k hk
    rw [hcalls, hreturns, hhandoffs, hmoving]
    exact h.current k (hreturn ▸ hk)
  future := by
    intro k hk
    rw [hcalls, hreturns]
    exact h.future k (hhandoffs ▸ hk)
  still := by
    rw [hreturn, hmoving]
    exact h.still

theorem calls_of_plain {new : List (Entry β)} (hlog : u.log = s.log ++ new)
    (hplain : ∀ entry ∈ new, entry.isPlain = true) (handoff : ℕ) :
    u.calls handoff = s.calls handoff ∧ u.returns handoff = s.returns handoff := by
  have hcallback : new.countP (Entry.isCallback handoff) = 0 :=
    List.countP_eq_zero.mpr fun entry hentry => by
      rw [Entry.isCallback_of_isPlain (hplain entry hentry)]
      exact Bool.false_ne_true
  have hreturn : new.countP (Entry.isReturn handoff) = 0 :=
    List.countP_eq_zero.mpr fun entry hentry => by
      rw [Entry.isReturn_of_isPlain (hplain entry hentry)]
      exact Bool.false_ne_true
  rw [calls, calls, returns, returns, hlog, List.countP_append, List.countP_append, hcallback,
    hreturn]
  exact ⟨rfl, rfl⟩

/-- Only the thread that does not write has moved. -/
theorem Orderly.passes (h : s.Orderly turn) (hcalm : (s.threads t).isCalm = true)
    (hu : Passes t s u) : u.Orderly turn := by
  have hsame : ∀ v, (s.threads v).isCalm = true ∧ (u.threads v).isCalm = true ∨
      u.threads v = s.threads v := by
    intro v
    by_cases hv : v = t
    · subst hv
      exact .inl ⟨hcalm, hu.calm hcalm⟩
    · exact .inr (hu.others v hv)
  have hcallback : ∀ v, (u.threads v).isCallback = true → (s.threads v).isCallback = true := by
    intro v hv
    rcases hsame v with ⟨-, hcalm'⟩ | heq
    · rw [Pc.isCallback_of_isCalm hcalm'] at hv
      cases hv
    · rwa [← heq]
  obtain ⟨new, hlog, hplain⟩ := hu.log
  refine ⟨?_, ?_, ?_, fun v => ?_, fun v => ?_, fun v w hv hw => ?_, fun v hv => ?_, ?_,
    fun entry hentry => ?_⟩
  · rw [hu.out]
    exact h.writing
  · rw [hu.out]
    exact h.empty
  · rw [hu.out]
    exact h.clean
  · rcases hsame v with ⟨hold, hnew⟩ | heq
    · rw [Pc.isPollOut_of_isCalm hnew, ← Pc.isPollOut_of_isCalm hold]
      exact h.polling v
    · rw [heq]
      exact h.polling v
  · rw [hu.out]
    rcases hsame v with ⟨-, hnew⟩ | heq
    · exact .of_isCalm hnew _
    · rw [heq]
      exact h.pcs v
  · exact h.callback v w (hcallback v hv) (hcallback w hw)
  · rw [hu.out]
    exact h.moving v (hcallback v hv)
  · exact h.callsBack.of_log (by rw [hu.out]) (by rw [hu.out]) hu.handoffs
      (fun k => (calls_of_plain hlog hplain k).1) fun k => (calls_of_plain hlog hplain k).2
  · rw [hlog] at hentry
    rcases List.mem_append.mp hentry with hmem | hmem
    · exact h.log entry hmem
    · exact .of_isPlain (hplain entry hmem)

theorem Silent.append (h : s.Silent n) {new : List (Entry β)} (hlog : u.log = s.log ++ new)
    (hnew : ∀ entry ∈ new, entry.isTake = false) : u.Silent n := by
  constructor
  · rw [hlog, List.length_append]
    exact h.le.trans (Nat.le_add_right _ _)
  · intro entry hentry
    rw [hlog, List.drop_append_of_le_length h.le] at hentry
    rcases List.mem_append.mp hentry with hmem | hmem
    · exact h.silent entry hmem
    · exact hnew entry hmem

theorem Silent.passes (h : s.Silent n) (hu : Passes t s u) : u.Silent n := by
  obtain ⟨new, hlog, hplain⟩ := hu.log
  exact h.append hlog fun entry hentry => Entry.isTake_of_isPlain (hplain entry hentry)

theorem Tells.of_not_isTake {entry : Entry β} (h : entry.isTake = false) : s.Tells p entry := by
  cases entry with
  | assertion a holds => cases a <;> trivial
  | took sent last => cases sent <;> trivial
  | _ => trivial

theorem Orderly.ends (h : s.Orderly turn) (hn : s.Silent n) (hheld : turn ≠ .held) : s.Ends p n :=
  ⟨⟨turn, hheld, h⟩, hn.le, fun entry hentry => .of_not_isTake (hn.silent entry hentry)⟩

theorem calls_note (s : System τ β) (entry : Entry β) (k : ℕ) :
    (s.note entry).calls k = s.calls k + if entry.isCallback k then 1 else 0 := by
  rw [calls, System.note, List.countP_append, List.countP_singleton]
  rfl

theorem returns_note (s : System τ β) (entry : Entry β) (k : ℕ) :
    (s.note entry).returns k = s.returns k + if entry.isReturn k then 1 else 0 := by
  rw [returns, System.note, List.countP_append, List.countP_singleton]
  rfl

theorem Orderly.note (h : s.Orderly turn) {entry : Entry β} (hentry : entry.Orderly)
    (hback : ∀ k, entry.isCallback k = false ∧ entry.isReturn k = false) :
    (s.note entry).Orderly turn := by
  have hcount : ∀ k,
      (s.note entry).calls k = s.calls k ∧ (s.note entry).returns k = s.returns k := by
    intro k
    obtain ⟨hcallback, hreturn⟩ := hback k
    rw [calls_note, returns_note, hcallback, hreturn]
    exact ⟨rfl, rfl⟩
  refine { h with
    callsBack := h.callsBack.of_log rfl rfl rfl (fun k => (hcount k).1) fun k => (hcount k).2
    log := fun other hother => ?_ }
  rcases List.mem_append.mp hother with hmem | hmem
  · exact h.log other hmem
  · rw [List.mem_singleton.mp hmem]
    exact hentry

/-! ### Threads that move -/

section functions

variable [DecidableEq τ] {e : Env τ β} {f : Flusher} {sender : Sender} {taker : Taker}
  {req : PreparedRequest} {vector : List Iovec}

theorem Passes.setPc {pc : Pc} (hpc : pc.isCalm = true) : Passes t s (s.setPc t pc) where
  out := rfl
  handoffs := rfl
  others := fun _ hv => threads_setPc_of_ne s hv pc
  calm := fun _ => by rwa [threads_setPc_self]
  log := ⟨[], (List.append_nil _).symm, nofun⟩

theorem Passes.leave {entry : Entry β} (h : entry.isPlain = true) : Passes t s (s.leave t entry) :=
  (Passes.setPc rfl).trans (.note h)

/-- Nobody begins or ends to poll with something to write. -/
theorem Orderly.setPc (h : s.Orderly turn) {pc : Pc}
    (hpoll : pc.isPollOut = (s.threads t).isPollOut)
    (hcallback : pc.isCallback = false)
    (hpc : pc.Orderly s.conn.out.returnSocket.isSome) : (s.setPc t pc).Orderly turn := by
  have hback : ∀ v, ((s.setPc t pc).threads v).isCallback = true →
      (s.threads v).isCallback = true := fun _ => of_setPc s hcallback
  exact { h with
    polling := forall_setPc (P := fun v pc => pc.isPollOut = true ↔ turn = .poll v) s
      (hpoll ▸ h.polling t) fun v _ => h.polling v
    pcs := forall_setPc (P := fun _ pc => pc.Orderly s.conn.out.returnSocket.isSome) s hpc
      fun v _ => h.pcs v
    callback := fun v w hv hw => h.callback v w (hback v hv) (hback w hw)
    moving := fun v hv => h.moving v (hback v hv)
    callsBack := h.callsBack.of_log rfl rfl rfl (fun _ => rfl) fun _ => rfl }

theorem Orderly.leave (h : s.Orderly turn) (hn : s.Silent n) (hcalm : (s.threads t).isCalm = true)
    (hheld : turn ≠ .held) {entry : Entry β} (hentry : entry.isPlain = true) :
    (s.leave t entry).Ends p n :=
  have hleave : Passes t s (s.leave t entry) := .leave hentry
  (h.passes hcalm hleave).ends (hn.passes hleave) hheld

/-! ### Taking the socket -/

theorem Orderly.takeSocket (h : s.Orderly .quiet) (hn : s.Silent n)
    (hcalm : (s.threads t).isCalm = true) (hnone : s.conn.out.returnSocket = none)
    (hempty : s.conn.out.queueLen = 0)
    (hwritten : p → s.conn.out.requestWritten = s.conn.out.request) (flags : Flags) (last : ℕ) :
    ((s.takeSocket e flags).leave t (.took (some s.conn.out.request) last)).Ends p n := by
  have hpcs : ∀ v, (s.threads v).isPollOut = false ∧ (s.threads v).Orderly false := by
    intro v
    have hpc := h.pcs v
    rw [hnone] at hpc
    refine ⟨Bool.eq_false_iff.mpr fun hpoll => ?_, hpc⟩
    cases (h.polling v).mp hpoll
  have hcallback : ∀ v, (s.threads v).isCallback = false := by
    intro v
    have hpc := (hpcs v).2
    cases hthread : s.threads v <;> first | rfl | (rw [hthread] at hpc; cases hpc)
  have howned : ∀ v, (s.threads v).Orderly true := by
    intro v
    obtain ⟨hpoll, hpc⟩ := hpcs v
    cases hthread : s.threads v with
    | pollOut failed sender vector =>
      rw [hthread] at hpoll
      cases hpoll
    | awaitWriter sender vector =>
      rw [hthread] at hpc
      cases hpc.2
    | lock call => cases call <;> trivial
    | _ => trivial
  have hback := h.callsBack
  set x : System τ β := { s with
    conn := (s.conn.handOver s.handoffs flags).loseEntries s.conn.inp.pendingReplies.length
      e.noMemory
    handoffs := s.handoffs + 1 } with hx
  have horderly : x.Orderly .quiet := by
    refine ⟨h.writing, fun _ => hempty, nofun, h.polling, howned, fun v w hv => ?_, fun v hv => ?_,
      ⟨fun k hk hne => ?_, fun k hk => ?_, fun k hk => ?_, nofun⟩, h.log⟩
    · rw [show x.threads v = s.threads v from rfl, hcallback v] at hv
      cases hv
    · rw [show x.threads v = s.threads v from rfl, hcallback v] at hv
      cases hv
    · have hlt : k < s.handoffs := by
        refine Nat.lt_of_le_of_ne (Nat.le_of_lt_succ hk) fun heq => hne ?_
        rw [heq]
        rfl
      exact hback.former k hlt (by rw [hnone]; nofun)
    · cases hk
      refine ⟨rfl, (hback.future s.handoffs (Nat.le_refl _)).2, ?_⟩
      rw [show x.conn.out.socketMoving = s.conn.out.socketMoving from rfl, hback.still hnone]
      exact (hback.future s.handoffs (Nat.le_refl _)).1
    · exact hback.future k (Nat.le_of_succ_le hk)
  have hassert : (s.takeSocket e flags).Orderly .quiet := horderly.note trivial fun _ => ⟨rfl, rfl⟩
  have hidle : ((s.takeSocket e flags).setPc t .idle).Orderly .quiet :=
    hassert.passes hcalm (.setPc rfl)
  have hleave :
      ((s.takeSocket e flags).leave t (.took (some s.conn.out.request) last)).Orderly .quiet :=
    hidle.note trivial fun _ => ⟨rfl, rfl⟩
  have hlog : ((s.takeSocket e flags).leave t (.took (some s.conn.out.request) last)).log = s.log ++
      [.assertion .takeSocket (decide (s.conn.out.request = s.conn.out.requestWritten)),
        .took (some s.conn.out.request) last] := List.append_assoc s.log [_] [_]
  refine ⟨⟨.quiet, nofun, hleave⟩, ?_, fun entry hentry => ?_⟩
  · rw [hlog, List.length_append]
    exact hn.le.trans (Nat.le_add_right _ _)
  · rw [hlog, List.drop_append_of_le_length hn.le, List.mem_append, List.mem_pair] at hentry
    rcases hentry with hmem | rfl | rfl
    · exact .of_not_isTake (hn.silent entry hmem)
    · exact fun hp => decide_eq_true (hwritten hp).symm
    · exact ⟨hempty, rfl, hwritten, s.handoffs, rfl, rfl⟩

/-! ### One function after the other -/

theorem Orderly.afterFlush (h : s.Orderly turn) (hn : s.Silent n)
    (hcalm : (s.threads t).isCalm = true) (hheld : turn ≠ .held) {ret : Bool}
    (htake : ∀ flags, f = .takeSocket flags → ret = true → turn = .quiet ∧
      s.conn.out.returnSocket = none ∧ s.conn.out.queueLen = 0 ∧
        (p → s.conn.out.requestWritten = s.conn.out.request)) :
    (s.afterFlush e t f ret).Ends p n := by
  cases f with
  | flush target => exact h.leave hn hcalm hheld rfl
  | takeSocket flags =>
    cases ret with
    | true =>
      obtain ⟨rfl, hnone, hempty, hwritten⟩ := htake flags rfl rfl
      exact h.takeSocket hn hcalm hnone hempty hwritten flags _
    | false => exact h.leave hn hcalm hheld rfl
  | waitForReply request =>
    cases ret with
    | true =>
      have hserves : Passes t s (s.startReply e t request) :=
        .of_serves (serves_startReply s e t request)
      exact (h.passes hcalm hserves).ends (hn.passes hserves) hheld
    | false =>
      have hwake : Passes t s (s.wakeUpNextReader e) := .of_reads (reads_wakeUpNextReader s e)
      exact (h.passes hcalm hwake).leave (hn.passes hwake) (hwake.calm hcalm) hheld rfl

omit [DecidableEq τ] in
theorem Orderly.shutdown (h : s.Orderly turn) : s.shutdown.Orderly turn :=
  { h with callsBack := h.callsBack.of_log rfl rfl rfl (fun _ => rfl) fun _ => rfl }

theorem Orderly.afterSend (h : s.Orderly turn) (hn : s.Silent n)
    (hcalm : (s.threads t).isCalm = true) (hheld : turn ≠ .held) {ret : Bool}
    (htake : ∀ flags, sender = .flusher (.takeSocket flags) → turn = .quiet ∧
      s.conn.out.returnSocket = none ∧ s.conn.out.queueLen = 0 ∧
        s.conn.out.requestWritten = s.conn.out.request) :
    (s.afterSend e t sender ret).Ends p n := by
  cases sender with
  | send number last =>
    cases ret with
    | true => exact h.leave hn hcalm hheld rfl
    | false =>
      have hn' : s.shutdown.Silent n := ⟨hn.le, hn.silent⟩
      exact h.shutdown.leave hn' hcalm hheld rfl
  | writev last => exact h.leave hn hcalm hheld rfl
  | flusher f =>
    refine h.afterFlush hn hcalm hheld fun flags hf _ => ?_
    obtain ⟨hquiet, hnone, hempty, hwritten⟩ := htake flags (by rw [hf])
    exact ⟨hquiet, hnone, hempty, fun _ => hwritten⟩

omit [DecidableEq τ] in
/-- The end of `_xcb_out_send`, up to what follows it. -/
theorem Orderly.endSend (h : s.Orderly turn) {next : Turn τ}
    (hnext : turn = .held ∧ next = .quiet ∨ next = turn ∧ s.conn.out.returnSocket ≠ none) :
    (s.setOut { s.conn.out with requestWritten := s.conn.out.request }).Orderly next := by
  have hback := h.callsBack.of_log (u := s.setOut
    { s.conn.out with requestWritten := s.conn.out.request })
    rfl rfl rfl (fun _ => rfl) fun _ => rfl
  rcases hnext with ⟨rfl, rfl⟩ | ⟨rfl, howned⟩
  · refine ⟨h.writing, fun _ => h.empty (.inl nofun), fun _ _ => ⟨rfl, h.empty (.inl nofun)⟩,
      fun v => ?_, h.pcs, h.callback, h.moving, hback, h.log⟩
    refine (h.polling v).trans ?_
    exact ⟨nofun, nofun⟩
  · exact ⟨h.writing, h.empty, fun hnone => absurd hnone howned, h.polling, h.pcs, h.callback,
      h.moving, hback, h.log⟩

/-- The thread that has something to write begins to poll. -/
theorem Orderly.waitWrite (h : s.Orderly .held)
    (hsender : sender.isWritev = s.conn.out.returnSocket.isSome) :
    (s.waitWrite t sender vector).Orderly (.poll t) := by
  have hwriting : s.conn.out.writing = 0 := h.writing
  rw [System.waitWrite, if_neg (not_not.mpr hwriting)]
  have hback : ∀ v, ((s.setPc t (.pollOut false sender vector)).threads v).isCallback = true →
      (s.threads v).isCallback = true := fun _ => of_setPc s rfl
  refine ⟨?_, fun _ => h.empty (.inl nofun), fun hnone heq => ?_,
    forall_setPc (P := fun v pc => pc.isPollOut = true ↔ Turn.poll t = .poll v) s ?_
    fun v hvt => ?_,
    forall_setPc (P := fun _ pc => pc.Orderly s.conn.out.returnSocket.isSome) s hsender
      fun v _ => h.pcs v, fun v w hv hw => h.callback v w (hback v hv) (hback w hw),
    fun v hv => h.moving v (hback v hv),
    h.callsBack.of_log rfl rfl rfl (fun _ => rfl) fun _ => rfl, h.log⟩
  · show s.conn.out.writing + 1 = 1
    rw [hwriting]
  · cases (h.clean hnone heq).1
  · exact ⟨fun _ => rfl, fun _ => rfl⟩
  · rw [h.polling v]
    exact ⟨nofun, fun heq => by cases heq; exact absurd rfl hvt⟩

/-- `_xcb_out_send`, by the thread whose turn it is. -/
theorem Orderly.outSend (h : s.Orderly .held) (hn : s.Silent n)
    (hcalm : (s.threads t).isCalm = true)
    (hsender : sender.isWritev = s.conn.out.returnSocket.isSome) {ret : Bool} :
    (s.outSend e t sender ret vector).Ends p n := by
  unfold System.outSend
  split
  · refine (h.waitWrite hsender).ends ⟨?_, ?_⟩ nofun
    · unfold System.waitWrite
      split <;> exact hn.le
    · unfold System.waitWrite
      split <;> exact hn.silent
  · have hend := h.endSend (.inl ⟨rfl, rfl⟩)
    set v := s.setOut { s.conn.out with requestWritten := s.conn.out.request } with hv
    have hn' : v.Silent n := ⟨hn.le, hn.silent⟩
    have hwake : Passes t v (v.wakeUpNextReader e) := .of_reads (reads_wakeUpNextReader v e)
    refine (hend.passes hcalm hwake).afterSend (hn'.passes hwake) (hwake.calm hcalm) nofun
      fun flags hflusher => ?_
    rw [hflusher] at hsender
    have hnone : s.conn.out.returnSocket = none :=
      Option.isNone_iff_eq_none.mp (Option.isSome_eq_false_iff.mp hsender.symm)
    rw [hwake.out]
    exact ⟨rfl, hnone, h.empty (.inl nofun), rfl⟩

omit [DecidableEq τ] in
/-- The turn begins. -/
theorem Orderly.hold (h : s.Orderly .quiet) (hempty : s.conn.out.queueLen = 0)
    (hbehind : s.conn.out.returnSocket = none → s.conn.out.requestWritten ≠ s.conn.out.request) :
    s.Orderly .held :=
  ⟨h.writing, fun _ => hempty, fun hnone heq => absurd heq (hbehind hnone),
    fun v => (h.polling v).trans ⟨nofun, nofun⟩, h.pcs, h.callback, h.moving, h.callsBack, h.log⟩

omit [DecidableEq τ] in
theorem Orderly.quiet_of_writing (h : s.Orderly turn) (hheld : turn ≠ .held)
    (hwriting : s.conn.out.writing = 0) : turn = .quiet := by
  rw [h.writing] at hwriting
  cases turn with
  | quiet => rfl
  | poll v => cases hwriting
  | held => exact absurd rfl hheld

/-- `_xcb_out_send`, by an owner. Another one may be writing. -/
theorem Orderly.outSend_writev (h : s.Orderly turn) (hn : s.Silent n)
    (hcalm : (s.threads t).isCalm = true) (hheld : turn ≠ .held)
    (howned : s.conn.out.returnSocket ≠ none) {last : ℕ} {ret : Bool} :
    (s.outSend e t (.writev last) ret vector).Ends p n := by
  have hsome : s.conn.out.returnSocket.isSome = true := Option.isSome_iff_ne_none.mpr howned
  by_cases hwriting : s.conn.out.writing = 0
  · obtain rfl := h.quiet_of_writing hheld hwriting
    have hsender : (Sender.writev last).isWritev = s.conn.out.returnSocket.isSome := hsome.symm
    exact (h.hold (h.empty (.inr howned)) fun hnone => absurd hnone howned).outSend hn hcalm hsender
  · unfold System.outSend
    split
    · rw [System.waitWrite, if_pos hwriting]
      have hpc : (Pc.awaitWriter (.writev last) vector).Orderly s.conn.out.returnSocket.isSome :=
        ⟨rfl, hsome⟩
      have hpoll : (Pc.awaitWriter (.writev last) vector).isPollOut = (s.threads t).isPollOut :=
        (Pc.isPollOut_of_isCalm hcalm).symm
      exact (h.setPc hpoll rfl hpc).ends ⟨hn.le, hn.silent⟩ hheld
    · have hend := h.endSend (.inr ⟨rfl, howned⟩)
      set v := s.setOut { s.conn.out with requestWritten := s.conn.out.request } with hv
      have hn' : v.Silent n := ⟨hn.le, hn.silent⟩
      have hwake : Passes t v (v.wakeUpNextReader e) := .of_reads (reads_wakeUpNextReader v e)
      exact (hend.passes hcalm hwake).afterSend (hn'.passes hwake) (hwake.calm hcalm) hheld nofun

omit [DecidableEq τ] in
/-- `write_vec` -/
theorem Orderly.writeVec (h : s.Orderly .held) (hn : s.Silent n) (vector : List Iovec)
    (w : WriteResult) :
    (s.writeVec vector w).1.Orderly .held ∧ (s.writeVec vector w).1.Silent n := by
  have hempty : s.conn.out.queueLen = 0 := h.empty (.inl nofun)
  have hcheck : (s.check .writeVecQueue (s.conn.out.queueLen = 0)).Orderly .held :=
    h.note (decide_eq_true hempty) fun _ => ⟨rfl, rfl⟩
  have hn' : (s.check .writeVecQueue (s.conn.out.queueLen = 0)).Silent n :=
    hn.append rfl fun entry hentry => by rw [List.mem_singleton.mp hentry]; rfl
  cases w with
  | again => exact ⟨hcheck, hn'⟩
  | failed => exact ⟨hcheck.shutdown, ⟨hn'.le, hn'.silent⟩⟩
  | wrote m =>
    have hwrote : ({ s.check .writeVecQueue (s.conn.out.queueLen = 0) with
        socket := s.socket ++ (gather s.conn.out.queue vector).take m } :
      System τ β).Orderly .held :=
      { hcheck with callsBack := hcheck.callsBack.of_log rfl rfl rfl (fun _ => rfl) fun _ => rfl }
    exact ⟨hwrote.note trivial fun _ => ⟨rfl, rfl⟩,
      Silent.append (s := s.check .writeVecQueue _) hn' rfl
      fun entry hentry => by rw [List.mem_singleton.mp hentry]; rfl⟩

/-- The thread that was in `poll` has the lock again. -/
theorem Orderly.endPoll (h : s.Orderly (.poll t)) :
    (s.endWrite.endRead.setPc t .idle).Orderly .held := by
  have hwriting : s.conn.out.writing = 1 := h.writing
  have hback : ∀ v, ((s.setPc t .idle).threads v).isCallback = true →
      (s.threads v).isCallback = true := fun _ => of_setPc s rfl
  refine ⟨?_, fun _ => h.empty (.inl nofun), fun hnone heq => ?_,
    forall_setPc (P := fun v pc => pc.isPollOut = true ↔ Turn.held = .poll v) s ⟨nofun, nofun⟩
      fun v hvt => ?_,
    forall_setPc (P := fun _ pc => pc.Orderly s.conn.out.returnSocket.isSome) s trivial
      fun v _ => h.pcs v, fun v w hv hw => h.callback v w (hback v hv) (hback w hw),
    fun v hv => h.moving v (hback v hv),
    h.callsBack.of_log rfl rfl rfl (fun _ => rfl) fun _ => rfl, h.log⟩
  · show s.conn.out.writing - 1 = 0
    rw [hwriting]
  · cases (h.clean hnone heq).1
  · rw [h.polling v]
    exact ⟨fun heq => by cases heq; exact absurd rfl hvt, nofun⟩

/-- `_xcb_conn_wait` with something to write, and what follows it. -/
theorem Orderly.finishWrite (h : s.Orderly (.poll t)) (hn : s.Silent n)
    (hsender : sender.isWritev = s.conn.out.returnSocket.isSome) (failed : Bool) :
    (s.finishWrite e t failed sender vector).Ends p n := by
  have hread := reads_pollRead s e failed
  have hidle := h.endPoll
  have hcalm : ((s.endWrite.endRead.setPc t .idle).threads t).isCalm = true := by
    rw [threads_setPc_self]
    rfl
  have hn' : (s.endWrite.endRead.setPc t .idle).Silent n := ⟨hn.le, hn.silent⟩
  have hpass : Passes t (s.endWrite.endRead.setPc t .idle)
    ((s.pollRead e failed).1.endWrite.endRead.setPc t .idle) := .of_reads (hread.leavePoll t)
  have hsender' : sender.isWritev =
      ((s.pollRead e failed).1.endWrite.endRead.setPc t .idle).conn.out.returnSocket.isSome := by
    rw [hpass.out]
    exact hsender
  have hleft := hidle.passes hcalm hpass
  unfold System.finishWrite pollWrite
  dsimp only
  split
  · have hcomm :
        (((s.pollRead e failed).1.writeVec vector e.writev).1.endWrite.endRead.setPc t .idle) =
        (((s.pollRead e failed).1.endWrite.endRead.setPc t .idle).writeVec vector e.writev).1 := by
      cases e.writev <;> rfl
    obtain ⟨hwrite, hsilent⟩ := hleft.writeVec (hn'.passes hpass) vector e.writev
    rw [← hcomm] at hwrite hsilent
    refine hwrite.outSend hsilent ?_ ?_
    · rw [threads_setPc_self]
      rfl
    · rw [hsender']
      cases e.writev <;> rfl
  · exact hleft.outSend (hn'.passes hpass) (hpass.calm hcalm) hsender'

theorem Orderly.awaitWritten (h : s.Orderly turn) (hn : s.Silent n)
    (hcalm : (s.threads t).isCalm = true) (hheld : turn ≠ .held) {request : BitVec 64} {k : ℕ}
    (htake : ∀ flags, f = .takeSocket flags → s.conn.out.writing = 0 →
      s.conn.out.returnSocket = none ∧ s.conn.out.queueLen = 0 ∧
        (p → s.conn.out.requestWritten = s.conn.out.request)) :
    (s.awaitWritten e t f request k).Ends p n := by
  unfold System.awaitWritten
  split
  · have hpass : Passes t s (s.setPc t (.awaitWritten f request k)) := .setPc rfl
    exact (h.passes hcalm hpass).ends (hn.passes hpass) hheld
  · next hwriting =>
    rw [not_not] at hwriting
    have hcheck : Passes t s (s.check .flushToWritten
      (sequenceCompare s.conn.out.requestWritten request ≥ 0)) := .note rfl
    exact (h.passes hcalm hcheck).afterFlush (hn.passes hcheck) hcalm hheld fun flags hf _ =>
      ⟨h.quiet_of_writing hheld hwriting, htake flags hf hwriting⟩

/-- How many requests are numbered and not written. -/
def unwritten (s : System τ β) : ℕ := (s.conn.out.request - s.conn.out.requestWritten).toNat

omit [DecidableEq τ] in
/-- `XCB_SEQUENCE_COMPARE` is right about fewer than `2 ^ 63` requests. -/
theorem requestWritten_eq_of_ge (hnear : s.unwritten < 2 ^ 63)
    (hge : sequenceCompare s.conn.out.requestWritten s.conn.out.request ≥ 0) :
    s.conn.out.requestWritten = s.conn.out.request := by
  have hdist :
      sequenceCompare s.conn.out.requestWritten s.conn.out.request = 0 - (s.unwritten : ℤ) := by
    have hzero : Serial.offset s.conn.out.requestWritten s.conn.out.requestWritten = 0 := by
      simp [Serial.offset]
    have hwindow := @Serial.dist_eq_of_window _ s.conn.out.requestWritten s.conn.out.requestWritten
      s.conn.out.request (by norm_num) (by rw [hzero]; norm_num) hnear
    rw [hzero] at hwindow
    exact hwindow
  have hzero : s.unwritten = 0 := by omega
  have hsub : s.conn.out.request - s.conn.out.requestWritten = 0 := BitVec.eq_of_toNat_eq hzero
  bv_omega

/-- What a thread in `get_socket_back` ought to find when it goes on: nobody writes, or the requests
that wait are in the queue. -/
def Ready (p : Prop) (s : System τ β) : Taker → Prop
  | .send _ => s.conn.out.writing = 0 ∧ s.unwritten < 2 ^ 63
  | .takeSocket _ => s.unwritten < 2 ^ 63 ∧ (p → s.conn.out.queueLen = 0 → s.conn.out.writing = 0 →
      s.conn.out.requestWritten = s.conn.out.request)

instance [Decidable p] (s : System τ β) (taker : Taker) : Decidable (s.Ready p taker) := by
  cases taker <;> unfold Ready <;> infer_instance

/-- `_xcb_out_flush_to` -/
theorem Orderly.flushTo (h : s.Orderly turn) (hn : s.Silent n) (hcalm : (s.threads t).isCalm = true)
    (hheld : turn ≠ .held) {request : BitVec 64}
    (htake : ∀ flags, f = .takeSocket flags → request = s.conn.out.request ∧
      s.conn.out.returnSocket = none ∧ s.Ready p (.takeSocket flags)) :
    (s.flushTo e t f request).Ends p n := by
  have hcheck : Passes t s (s.check .flushToRequest
    (sequenceCompare request s.conn.out.request ≤ 0)) := .note rfl
  have h' := h.passes hcalm hcheck
  have hn' := hn.passes hcheck
  unfold System.flushTo
  dsimp only
  split
  · next hge =>
    refine h'.afterFlush hn' hcalm hheld fun flags hf _ => ?_
    obtain ⟨hrequest, hnone, hnear, -⟩ := htake flags hf
    rw [hrequest] at hge
    have hwritten := requestWritten_eq_of_ge hnear hge
    obtain ⟨hquiet, hempty⟩ := h.clean hnone hwritten
    exact ⟨hquiet, hnone, hempty, fun _ => hwritten⟩
  · split
    · next hqueue =>
      have hfree : ¬ (turn ≠ .quiet ∨ s.conn.out.returnSocket ≠ none) := fun hbusy =>
        hqueue (h.empty hbusy)
      simp only [not_or, not_not] at hfree
      obtain ⟨rfl, hnone⟩ := hfree
      have hqueued : ((s.check .flushToRequest
          (sequenceCompare request s.conn.out.request ≤ 0)).setOut s.conn.out.takeQueue.1).Orderly
            .held := by
        refine ⟨h'.writing, fun _ => rfl, fun hnone' heq => ?_,
          fun v => (h'.polling v).trans ⟨nofun, nofun⟩, h'.pcs, h'.callback, h'.moving,
          h'.callsBack.of_log rfl rfl rfl (fun _ => rfl) fun _ => rfl, h'.log⟩
        exact absurd (h.clean hnone heq).2 hqueue
      have hsender : (Sender.flusher f).isWritev = s.conn.out.returnSocket.isSome := by
        rw [hnone]
        rfl
      exact hqueued.outSend ⟨hn'.le, hn'.silent⟩ hcalm hsender
    · next hqueue =>
      rw [not_not] at hqueue
      refine h'.awaitWritten hn' hcalm hheld fun flags hf hwriting => ?_
      obtain ⟨-, hnone, -, hwritten⟩ := htake flags hf
      exact ⟨hnone, hqueue, fun hp => hwritten hp hqueue hwriting⟩

/-! ### Numbering a request -/

omit [DecidableEq τ] in
theorem numberRequest_snd_le_two (c : XcbConnection τ β) (req : PreparedRequest) :
    (c.numberRequest req).2 ≤ 2 := by
  by_cases hdouble : c.DoubleSync req.isvoid
  · exact (numberRequest_snd_of_doubleSync hdouble).le
  · exact (numberRequest_snd_le_one hdouble).trans one_le_two

/-- `xcb_send_request`, once nobody writes and nobody owns the socket. -/
theorem Orderly.sendRequest (h : s.Orderly .quiet) (hn : s.Silent n)
    (hcalm : (s.threads t).isCalm = true) (hnone : s.conn.out.returnSocket = none)
    (hnear : s.unwritten < 2 ^ 63) : (s.sendRequest e t req).Ends p n := by
  have hnumbered : (s.note (.numbered s.conn.out.writing s.conn.out.returnSocket.isSome)).Orderly
      .quiet := by
    refine h.note ⟨h.writing, ?_⟩ fun _ => ⟨rfl, rfl⟩
    rw [hnone]
    rfl
  have hn' : (s.note (.numbered s.conn.out.writing s.conn.out.returnSocket.isSome)).Silent n :=
    hn.append rfl fun entry hentry => by rw [List.mem_singleton.mp hentry]; rfl
  set v := s.note (.numbered s.conn.out.writing s.conn.out.returnSocket.isSome) with hv
  set u := v.numberRequest e req with hu
  have hout : u.conn.out = { s.conn.out with
      request := s.conn.out.request + BitVec.ofNat 64 ((s.conn.numberRequest req).2 + 1) } := by
    show (s.conn.numberRequest req).1.out = _
    rw [numberRequest_fst]
  have hcount := numberRequest_snd_le_two s.conn req
  have hbehind : u.conn.out.requestWritten ≠ u.conn.out.request := by
    rw [hout]
    unfold unwritten at hnear
    generalize (s.conn.numberRequest req).2 = count at hcount
    dsimp only
    bv_omega
  obtain ⟨queue, queueLen, heq⟩ := out_writeBlock_eq u.conn.out
    (req.vector ((s.conn.numberRequest req).2 ≠ 0))
  set w := u.setOut (u.conn.out.writeBlock
    (req.vector ((s.conn.numberRequest req).2 ≠ 0))).1 with hw
  have hwout : w.conn.out = { u.conn.out with queue := queue, queueLen := queueLen } := heq
  have hwquiet : w.Orderly .quiet := by
    refine ⟨?_, fun hbusy => ?_, fun _ heq' => ?_, hnumbered.polling, fun v' => ?_,
      hnumbered.callback,
      fun v' hv' => ?_, ?_, hnumbered.log⟩
    · rw [hwout, hout]
      exact h.writing
    · rw [hwout, hout] at hbusy
      simp [hnone] at hbusy
    · rw [hwout] at heq'
      exact absurd heq' hbehind
    · rw [hwout, hout]
      exact h.pcs v'
    · rw [hwout, hout]
      exact h.moving v' hv'
    · exact hnumbered.callsBack.of_log (by rw [hwout, hout]; rfl) (by rw [hwout, hout]; rfl) rfl
        (fun _ => rfl) fun _ => rfl
  have hwsilent : w.Silent n := ⟨hn'.le, hn'.silent⟩
  unfold System.sendRequest System.writeBlock
  dsimp only
  split
  · exact hwquiet.leave hwsilent hcalm nofun rfl
  · next hne =>
    have hempty : w.conn.out.queueLen = 0 := queueLen_writeBlock hne
    have hwhold : w.Orderly .held := hwquiet.hold hempty fun _ => by
      rw [hwout]
      exact hbehind
    refine hwhold.outSend hwsilent hcalm ?_
    rw [hwout, hout, hnone]
    rfl

/-! ### The socket comes back -/

theorem Orderly.afterSocket (h : s.Orderly turn) (hn : s.Silent n)
    (hcalm : (s.threads t).isCalm = true) (hheld : turn ≠ .held)
    (hnone : s.conn.out.returnSocket = none) (hready : s.Ready p taker) :
    (s.afterSocket e t taker).Ends p n := by
  cases taker with
  | send req =>
    obtain ⟨hwriting, hnear⟩ := hready
    obtain rfl := h.quiet_of_writing hheld hwriting
    exact h.sendRequest hn hcalm hnone hnear
  | takeSocket flags =>
    refine h.flushTo hn hcalm hheld fun flags' hf => ?_
    cases hf
    exact ⟨rfl, hnone, hready⟩

/-- `get_socket_back` -/
theorem Orderly.getSocketBack (h : s.Orderly turn) (hn : s.Silent n)
    (hcalm : (s.threads t).isCalm = true) (hheld : turn ≠ .held)
    (hready : s.conn.out.returnSocket = none → s.Ready p taker) :
    (s.getSocketBack e t taker).Ends p n := by
  unfold System.getSocketBack
  split
  · next hnone => exact h.afterSocket hn hcalm hheld hnone (hready hnone)
  · next handoff hsome =>
    split
    · have hpass : Passes t s (s.setPc t (.awaitSocket taker)) := .setPc rfl
      exact (h.passes hcalm hpass).ends (hn.passes hpass) hheld
    · next hmoving =>
      -- nobody is in the callback yet
      have hnobody : ∀ v, v ≠ t → (((s.setOut { s.conn.out with socketMoving := true }).note
          (.callback handoff)).setPc t (.callback taker)).threads v = s.threads v ∧
            (s.threads v).isCallback = false := fun v hv =>
        ⟨threads_setPc_of_ne _ hv _, Bool.eq_false_iff.mpr fun hcall => hmoving (h.moving v hcall)⟩
      obtain ⟨hlast, hreturns, hcalls⟩ := h.callsBack.current handoff hsome
      rw [if_neg hmoving] at hcalls
      have horderly : (((s.setOut { s.conn.out with socketMoving := true }).note
          (.callback handoff)).setPc t (.callback taker)).Orderly turn := by
        refine ⟨h.writing, h.empty, fun hnone => ?_,
          forall_setPc (P := fun v pc => pc.isPollOut = true ↔ turn = .poll v) _ ?_
            fun v _ => h.polling v,
          forall_setPc (P := fun _ pc => pc.Orderly s.conn.out.returnSocket.isSome) _
            (Option.isSome_iff_exists.mpr ⟨handoff, hsome⟩) fun v _ => h.pcs v,
          fun v w hv hw => ?_, fun _ _ => rfl,
          ⟨fun k hk hne => ?_, fun k hk => ?_, fun k hk => ?_, fun hnone => ?_⟩,
          fun entry hentry => ?_⟩
        · exact absurd (hsome.symm.trans hnone) nofun
        · rw [← h.polling t, Pc.isPollOut_of_isCalm hcalm]
          rfl
        · have honly : ∀ v', (((s.setOut { s.conn.out with socketMoving := true }).note
              (.callback handoff)).setPc t (.callback taker)).threads v' |>.isCallback →
                v' = t := by
            intro v' hv'
            by_contra hvt
            rw [(hnobody v' hvt).1, (hnobody v' hvt).2] at hv'
            cases hv'
          rw [honly v hv, honly w hw]
        · show (s.note (.callback handoff)).calls k = 1 ∧ (s.note (.callback handoff)).returns k = 1
          have hother : handoff ≠ k := fun heq => hne (by rw [← heq]; exact hsome)
          rw [calls_note, returns_note]
          simpa [Entry.isCallback, Entry.isReturn, hother] using
            h.callsBack.former k hk fun hs => hne hs
        · obtain rfl : handoff = k := Option.some_inj.mp (hsome.symm.trans hk)
          show handoff + 1 = s.handoffs ∧ (s.note (.callback handoff)).returns handoff = 0 ∧
            (s.note (.callback handoff)).calls handoff = 1
          rw [calls_note, returns_note, hreturns, hcalls]
          exact ⟨hlast, rfl, by simp [Entry.isCallback]⟩
        · show (s.note (.callback handoff)).calls k = 0 ∧ (s.note (.callback handoff)).returns k = 0
          have hother : handoff ≠ k := by
            rintro rfl
            have hle : s.handoffs ≤ handoff := hk
            omega
          rw [calls_note, returns_note]
          simpa [Entry.isCallback, Entry.isReturn, hother] using h.callsBack.future k hk
        · exact absurd (hsome.symm.trans hnone) nofun
        · rcases List.mem_append.mp hentry with hmem | hmem
          · exact h.log entry hmem
          · rw [List.mem_singleton.mp hmem]
            trivial
      have hsilent : (((s.setOut { s.conn.out with socketMoving := true }).note
          (.callback handoff)).setPc t (.callback taker)).Silent n :=
        hn.append rfl fun entry hentry => by rw [List.mem_singleton.mp hentry]; rfl
      exact horderly.ends hsilent hheld

/-- The callback has returned, and no owner writes any more. -/
theorem Orderly.endCallback (h : s.Orderly turn) (hheld : turn ≠ .held)
    (ht : (s.threads t).isCallback = true) (hwritev : ∀ v, (s.threads v).isWritev = false) :
    (s.endCallback.setPc t .idle).Orderly .quiet := by
  have howned : s.conn.out.returnSocket.isSome = true := by
    have hpc := h.pcs t
    cases hthread : s.threads t <;> rw [hthread] at ht hpc <;> first | exact hpc | cases ht
  obtain ⟨handoff, hsome⟩ := Option.isSome_iff_exists.mp howned
  have hmoving := h.moving t ht
  obtain ⟨hlast, hreturns, hcalls⟩ := h.callsBack.current handoff hsome
  rw [if_pos hmoving] at hcalls
  have hnext : ∀ v, v ≠ t → (s.endCallback.setPc t .idle).threads v = s.threads v ∧
      (s.threads v).isCallback = false := fun v hv =>
    ⟨threads_setPc_of_ne _ hv _, Bool.eq_false_iff.mpr fun hcall => hv (h.callback v t hcall ht)⟩
  have hpoll : ∀ v, (s.threads v).isPollOut = false := by
    intro v
    have hpc := h.pcs v
    have hnot := hwritev v
    cases hthread : s.threads v with
    | pollOut failed sender vector =>
      rw [hthread] at hpc hnot
      rw [Pc.isWritev_pollOut, show sender.isWritev = true from hpc.trans howned] at hnot
      cases hnot
    | _ => rfl
  have hquiet : turn = .quiet := by
    cases turn with
    | quiet => rfl
    | poll v =>
      have := (h.polling v).mpr rfl
      rw [hpoll v] at this
      cases this
    | held => exact absurd rfl hheld
  subst hquiet
  have hidle : (s.endCallback.setPc t .idle).threads t = .idle := threads_setPc_self _ _ _
  have hpolling : ∀ v, ((s.endCallback.setPc t .idle).threads v).isPollOut = false :=
    forall_setPc (P := fun _ pc => pc.isPollOut = false) _ rfl fun v _ => hpoll v
  have hnobody : ∀ v, ((s.endCallback.setPc t .idle).threads v).isCallback = false :=
    forall_setPc (P := fun _ pc => pc.isCallback = false) _ rfl fun v hvt => (hnext v hvt).2
  refine ⟨h.writing, fun _ => h.empty (.inr (by rw [hsome]; nofun)),
    fun _ _ => ⟨rfl, h.empty (.inr (by rw [hsome]; nofun))⟩, fun v => ?_, fun v => ?_,
    fun v w hv hw => ?_, fun v hv => ?_, ⟨fun k hk hne => ?_, nofun, fun k hk => ?_, fun _ => rfl⟩,
    fun entry hentry => ?_⟩
  · rw [hpolling v]
    exact ⟨nofun, nofun⟩
  · by_cases hvt : v = t
    · rw [hvt, hidle]
      trivial
    · rw [(hnext v hvt).1]
      have hpollOut := hpoll v
      have hcallback := (hnext v hvt).2
      have hnot := hwritev v
      have hpc := h.pcs v
      cases hthread : s.threads v with
      | pollOut failed sender vector =>
        rw [hthread] at hpollOut
        cases hpollOut
      | awaitWriter sender vector =>
        rw [hthread] at hpc hnot
        rw [Pc.isWritev_awaitWriter, show sender.isWritev = true from hpc.1] at hnot
        cases hnot
      | callback taker =>
        rw [hthread] at hcallback
        cases hcallback
      | lock call =>
        rw [hthread] at hnot
        cases call <;> trivial
      | _ => trivial
  · rw [hnobody v] at hv
    cases hv
  · rw [hnobody v] at hv
    cases hv
  · show (s.note (.callbackReturned _)).calls k = 1 ∧ (s.note (.callbackReturned _)).returns k = 1
    rw [calls_note, returns_note, hsome, Option.getD_some]
    by_cases hk' : handoff = k
    · subst hk'
      rw [hcalls, hreturns]
      exact ⟨rfl, by simp [Entry.isReturn]⟩
    · simpa [Entry.isCallback, Entry.isReturn, hk'] using
        h.callsBack.former k hk fun heq => hk' (Option.some_inj.mp (hsome.symm.trans heq))
  · show (s.note (.callbackReturned _)).calls k = 0 ∧ (s.note (.callbackReturned _)).returns k = 0
    have hother : handoff ≠ k := by
      rintro rfl
      have hle : s.handoffs ≤ handoff := hk
      omega
    rw [calls_note, returns_note, hsome, Option.getD_some]
    simpa [Entry.isCallback, Entry.isReturn, hother] using h.callsBack.future k hk
  · rcases List.mem_append.mp hentry with hmem | hmem
    · exact h.log entry hmem
    · rw [List.mem_singleton.mp hmem]
      trivial

theorem Orderly.awaitTurn (h : s.Orderly turn) (hn : s.Silent n)
    (hcalm : (s.threads t).isCalm = true) (hheld : turn ≠ .held)
    (hready : s.conn.out.writing = 0 → s.conn.out.returnSocket = none → s.Ready p (.send req)) :
    (s.awaitTurn e t req).Ends p n := by
  unfold System.awaitTurn
  split
  · have hpass : Passes t s (s.setPc t (.awaitTurn req)) := .setPc rfl
    exact (h.passes hcalm hpass).ends (hn.passes hpass) hheld
  · next hwriting => exact h.getSocketBack hn hcalm hheld (hready (not_not.mp hwriting))

theorem Orderly.writev (h : s.Orderly turn) (hn : s.Silent n) (hcalm : (s.threads t).isCalm = true)
    (hheld : turn ≠ .held) (howned : s.conn.out.returnSocket ≠ none)
    (vector requests : List (List UInt8)) : (s.writev e t vector requests).Ends p n := by
  have hnumbered : (s.numberOwner requests).Orderly turn :=
    ⟨h.writing, h.empty, fun hnone => absurd hnone howned, h.polling, h.pcs, h.callback, h.moving,
      h.callsBack.of_log rfl rfl rfl (fun _ => rfl) fun _ => rfl, h.log⟩
  exact hnumbered.outSend_writev ⟨hn.le, hn.silent⟩ hcalm hheld howned

/-! ### Steps -/

/-- What a thread that goes on ought to find. A thread that has waited for the socket finds nobody
writing, and one that has waited for the writing of others finds the queue still empty and the
socket not taken. Fewer than `2 ^ 63` requests wait to be written. -/
def Rechecks (p : Prop) (s : System τ β) : Action τ β → Prop
  | .run t _ =>
    match s.threads t with
    | .lock (.send req) | .awaitTurn req =>
      s.conn.out.writing = 0 → s.conn.out.returnSocket = none → s.Ready p (.send req)
    | .lock (.takeSocket flags) => s.conn.out.returnSocket = none → s.Ready p (.takeSocket flags)
    | .awaitSocket taker => s.conn.out.returnSocket = none → s.Ready p taker
    | .callback taker => s.Ready p taker
    | .awaitWritten (.takeSocket _) _ _ => s.conn.out.writing = 0 →
      s.conn.out.returnSocket = none ∧ s.conn.out.queueLen = 0 ∧
        (p → s.conn.out.requestWritten = s.conn.out.request)
    | _ => True
  | _ => True

instance [Decidable p] (s : System τ β) (a : Action τ β) : Decidable (Rechecks p s a) := by
  refine Action.casesOn a ?_ ?_ fun t e => ?_ <;> intros <;> dsimp only [Rechecks]
  · infer_instance
  · infer_instance
  · generalize s.threads t = pc
    refine Pc.casesOn pc ?_ (fun call => Call.casesOn call ?_ ?_ ?_ ?_ ?_ ?_ ?_ ?_ ?_)
      ?_ ?_ ?_ ?_ ?_ (fun f request n => Flusher.casesOn f ?_ ?_ ?_) ?_ ?_ <;>
      intros <;> infer_instance

theorem Orderly.start (h : s.Orderly turn) (hn : s.Silent n) (hcalm : (s.threads t).isCalm = true)
    (hheld : turn ≠ .held) {call : Call PreparedRequest}
    (hcall : (Pc.lock call).Orderly s.conn.out.returnSocket.isSome)
    (hsend : ∀ req, call = .send req → s.conn.out.writing = 0 →
      s.conn.out.returnSocket = none → s.Ready p (.send req))
    (htake : ∀ flags, call = .takeSocket flags → s.conn.out.returnSocket = none →
      s.Ready p (.takeSocket flags)) : (s.start e t call).Ends p n := by
  have hserve : ∀ {u : System τ β}, Serves t s u → u.Ends p n := fun hserves =>
    (h.passes hcalm (.of_serves hserves)).ends (hn.passes (.of_serves hserves)) hheld
  cases call with
  | send req => exact h.awaitTurn hn hcalm hheld (hsend req rfl)
  | flush => exact h.flushTo hn hcalm hheld nofun
  | takeSocket flags => exact h.getSocketBack hn hcalm hheld (htake flags rfl)
  | writev vector requests =>
    exact h.writev hn hcalm hheld (Option.isSome_iff_ne_none.mp hcall) vector requests
  | waitForReply request =>
    unfold System.start
    dsimp only
    split
    · exact hserve (serves_startReply s e t request)
    · exact h.flushTo hn hcalm hheld nofun
  | pollForReply request => exact hserve (serves_pollForReply s t request)
  | discardReply request => exact hserve (serves_discardReply s t request)
  | waitForEvent => exact hserve (serves_waitEvent s e t)
  | pollForEvent => exact hserve (serves_pollEvent s e t)

omit [DecidableEq τ] in
theorem passes_refuse (s : System τ β) (t : τ) (call : Call SendCall) :
    Passes t s (s.refuse call) := by
  cases call <;> exact .note rfl

theorem Orderly.enter (h : s.Orderly turn) (hn : s.Silent n) (hcalm : (s.threads t).isCalm = true)
    (hheld : turn ≠ .held) {call : Call SendCall} (hcall : s.MayCall call) :
    (s.enter t call).Ends p n := by
  have hpass : ∀ {u : System τ β}, Passes t s u → u.Ends p n := fun hu =>
    (h.passes hcalm hu).ends (hn.passes hu) hheld
  cases call with
  | send call =>
    unfold System.enter
    dsimp only
    split
    · exact hpass (.setPc rfl)
    · have hshut : Passes t s s.shutdown := .of_reads (reads_shutdown s)
      exact hpass (hshut.trans (.note rfl))
  | discardReply request =>
    unfold System.enter
    dsimp only
    split
    · exact hpass (.note rfl)
    · exact hpass (.setPc rfl)
  | writev vector requests =>
    have hpc : (Pc.lock (.writev vector requests)).Orderly s.conn.out.returnSocket.isSome := hcall
    have hpoll : (Pc.lock (.writev vector requests)).isPollOut = (s.threads t).isPollOut :=
      (Pc.isPollOut_of_isCalm hcalm).symm
    exact (h.setPc hpoll rfl hpc).ends ⟨hn.le, hn.silent⟩ hheld
  | _ => exact hpass (.setPc rfl)

theorem Orderly.call (h : s.Orderly turn) (hn : s.Silent n) (hheld : turn ≠ .held)
    {call : Call SendCall} (hstep : s.call t call = some u) : u.Ends p n := by
  unfold System.call at hstep
  split at hstep
  · next ht =>
    have hcalm : (s.threads t).isCalm = true := by rw [ht]; rfl
    split at hstep
    · next hcall =>
      split at hstep <;> cases hstep
      · have hpass := passes_refuse s t call
        exact (h.passes hcalm hpass).ends (hn.passes hpass) hheld
      · exact h.enter hn hcalm hheld hcall
    · cases hstep
  · cases hstep

theorem Orderly.pollFails (h : s.Orderly turn) (hn : s.Silent n) (hheld : turn ≠ .held)
    (hstep : s.pollFails t = some u) : u.Ends p n := by
  have hshut : Passes t s s.shutdown := .of_reads (reads_shutdown s)
  unfold System.pollFails at hstep
  split at hstep
  · next failed sender vector ht =>
    cases hstep
    have hpc := h.pcs t
    rw [ht] at hpc
    have hpoll : (Pc.pollOut true sender vector).isPollOut = (s.shutdown.threads t).isPollOut := by
      rw [show s.shutdown.threads t = s.threads t from rfl, ht]
      rfl
    exact (h.shutdown.setPc hpoll rfl hpc).ends ⟨hn.le, hn.silent⟩ hheld
  · next failed waiter ht =>
    cases hstep
    have hcalm : (s.threads t).isCalm = true := by rw [ht]; rfl
    have hpass : Passes t s (s.shutdown.setPc t (.pollIn true waiter)) := hshut.trans (.setPc rfl)
    exact (h.passes hcalm hpass).ends (hn.passes hpass) hheld
  · cases hstep

theorem Orderly.idle (h : s.Orderly turn) (hpoll : (s.threads t).isPollOut = false) :
    (s.setPc t .idle).Orderly turn :=
  h.setPc hpoll.symm rfl trivial

variable [Fintype τ]

theorem Orderly.run (h : s.Orderly turn) (hn : s.Silent n) (hheld : turn ≠ .held)
    (hok : s.Rechecks p (.run t e)) (hstep : s.run t e = some u) : u.Ends p n := by
  have hpc := h.pcs t
  have hcalm : ((s.setPc t .idle).threads t).isCalm = true := by
    rw [threads_setPc_self]
    rfl
  have hn' : (s.setPc t .idle).Silent n := ⟨hn.le, hn.silent⟩
  unfold System.run at hstep
  split at hstep
  · cases hstep
  · next call ht =>
    cases hstep
    rw [ht] at hpc
    simp only [Rechecks, ht] at hok
    refine (h.idle (by rw [ht]; rfl)).start hn' hcalm hheld hpc (fun req hreq => ?_)
      fun flags hflags => ?_
    · subst hreq
      exact hok
    · subst hflags
      exact hok
  · next req ht =>
    cases hstep
    simp only [Rechecks, ht] at hok
    exact (h.idle (by rw [ht]; rfl)).awaitTurn hn' hcalm hheld hok
  · next taker ht =>
    cases hstep
    simp only [Rechecks, ht] at hok
    exact (h.idle (by rw [ht]; rfl)).getSocketBack hn' hcalm hheld hok
  · next taker ht =>
    split at hstep
    · next hwritev =>
      cases hstep
      simp only [Rechecks, ht] at hok
      have hback := h.endCallback hheld (by rw [ht]; rfl) hwritev
      have hsilent : (s.endCallback.setPc t .idle).Silent n :=
        hn.append rfl fun entry hentry => by rw [List.mem_singleton.mp hentry]; rfl
      refine hback.afterSocket hsilent ?_ nofun rfl ?_
      · rw [threads_setPc_self]
        rfl
      · cases taker <;> exact hok
    · cases hstep
  · next sender vector ht =>
    cases hstep
    rw [ht] at hpc
    obtain ⟨hsender, howned⟩ := hpc
    cases sender with
    | writev last =>
      exact (h.idle (by rw [ht]; rfl)).outSend_writev hn' hcalm hheld
        (Option.isSome_iff_ne_none.mp howned)
    | _ => cases hsender
  · next failed sender vector ht =>
    have hturn : turn = .poll t := (h.polling t).mp (by rw [ht]; rfl)
    subst hturn
    rw [ht] at hpc
    split at hstep
    · cases hstep
      exact h.finishWrite hn hpc failed
    · cases hstep
  · next f request k ht =>
    cases hstep
    simp only [Rechecks, ht] at hok
    refine (h.idle (by rw [ht]; rfl)).awaitWritten hn' hcalm hheld fun flags hf => ?_
    subst hf
    exact hok
  · next waiter ht =>
    cases hstep
    have hpass : Passes t (s.setPc t .idle) ((s.setPc t .idle).afterRead e t waiter true) :=
      .of_serves (serves_afterRead _ e t _ true)
    exact ((h.idle (by rw [ht]; rfl)).passes hcalm hpass).ends (hn'.passes hpass) hheld
  · next failed waiter ht =>
    cases hstep
    have hpass : Passes t s (s.finishRead e t failed waiter) :=
      .of_serves (serves_finishRead s e t _ _)
    exact (h.passes (by rw [ht]; rfl) hpass).ends (hn.passes hpass) hheld

/-- **One step**: the queue and the socket stay in order. -/
theorem ends_step {a : Action τ β} (h : s.Orderly turn) (hheld : turn ≠ .held)
    (hok : s.Rechecks p a) (hstep : s.step a = some u) : u.Ends p s.log.length := by
  have hn : s.Silent s.log.length := ⟨Nat.le_refl _, by rw [List.drop_length]; nofun⟩
  cases a with
  | call t call => exact h.call hn hheld hstep
  | pollFails t => exact h.pollFails hn hheld hstep
  | run t e => exact h.run hn hheld hok hstep

omit [DecidableEq τ] [Fintype τ] in
theorem orderly_init (size : ℕ) (maximum : BitVec 16) :
    (init size maximum : System τ β).Orderly .quiet :=
  ⟨rfl, fun _ => rfl, fun _ _ => ⟨rfl, rfl⟩, fun _ => ⟨nofun, nofun⟩, fun _ => trivial, nofun,
  nofun,
    ⟨nofun, nofun, fun _ _ => ⟨rfl, rfl⟩, fun _ => rfl⟩, nofun⟩

end functions

end System

end Xcb
