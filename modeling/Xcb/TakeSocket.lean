import Xcb.Ownership
import Xcb.Stream

/-!
# Taking the socket

Two results about runs with handoffs. When `xcb_send_request` numbers a request, nobody writes and
nobody owns the socket; and when `xcb_take_socket` returns, everything is written and the former
owners have been called back. Both hold as long as the waits do not go wrong, and there are runs in
which they do.

## Main definitions

* `System.Exclusive` — who may fill the queue
* `System.HandsOver` — what `xcb_take_socket` promises

## Main results

* `System.exclusive_of_reach`, `System.handsOver_of_reach` — the two results
* `System.not_exclusive_awaitSocket`, `System.not_handsOver_awaitWritten` — runs in which they fail
-/

namespace Xcb

variable {τ β : Type}

namespace System

/-- Requests were only numbered while nobody wrote and nobody owned the socket, and the queue was
empty whenever a thread wrote. What counts as an owner: a socket that was taken and is not owned any
more has been given back by its owner. -/
structure Exclusive (s : System τ β) : Prop where
  numbered : ∀ writing owned, .numbered writing owned ∈ s.log → writing = 0 ∧ owned = false
  asserted : ∀ holds, .assertion .writeVecQueue holds ∈ s.log → holds = true
  returned : s.conn.out.returnSocket = none → ∀ h < s.handoffs, s.calls h = 1 ∧ s.returns h = 1

/-- A step from `s` to `u` in which a thread takes the socket: the output is written, what was sent
is the last request, and all former owners have been called back once and have returned. -/
structure HandsOver (s u : System τ β) : Prop where
  took : ∀ sent last, .took (some sent) last ∈ u.log.drop s.log.length → u.conn.hasError = false →
    u.conn.out.queueLen = 0 ∧ u.conn.out.request = sent ∧ u.conn.out.requestWritten = sent ∧
      ∀ h, h + 1 < u.handoffs → u.calls h = 1 ∧ u.returns h = 1
  asserted : ∀ holds, .assertion .takeSocket holds ∈ u.log.drop s.log.length → holds = true

variable {s u : System τ β} {p : Prop} [DecidableEq τ] [Fintype τ] {size : ℕ} {maximum : BitVec 16}

theorem orderly_of_reach
    (h : Transition.Reach System.step (Rechecks p) (init size maximum) s) :
    ∃ turn, turn ≠ .held ∧ s.Orderly turn := by
  refine h.invariant (P := fun s => ∃ turn, turn ≠ .held ∧ s.Orderly turn)
    (fun s a u hs hok hstep => ?_) ⟨.quiet, nofun, orderly_init size maximum⟩
  obtain ⟨turn, hheld, hs⟩ := hs
  exact (ends_step hs hheld hok hstep).orderly

/-- **No request is numbered during a write**, as long as threads that waited find things as they
ought to. -/
theorem exclusive_of_reach
    (h : Transition.Reach System.step (Rechecks False) (init size maximum) s) : s.Exclusive := by
  obtain ⟨turn, -, hs⟩ := orderly_of_reach h
  refine ⟨fun writing owned hmem => hs.log _ hmem, fun holds hmem => hs.log _ hmem,
    fun hnone k hk => hs.callsBack.former k hk ?_⟩
  rw [hnone]
  nofun

/-- Nothing to read, and everything written. -/
def writes : Env (Fin 3) Unit where
  pollin := false
  pollout := true
  recv := ⟨[], none, false⟩
  writev := .wrote 4
  noMemory := fun _ => false
  order := [0, 1, 2]
  complete := mem_range_three

/-- Thread 2 takes the socket. Thread 0 gets it back, and thread 1 waits for that; then both
send. -/
def handoffThenSend : List (Action (Fin 3) Unit) :=
  [.call 2 (.takeSocket 0), .run 2 writes, .call 0 (.send (wordCall true)), .run 0 writes,
    .call 1 (.send (wordCall true)), .run 1 writes, .run 0 writes, .run 1 writes]

/-- The thread that has waited for the socket numbers its request in turn. -/
theorem exclusive_handoffThenSend :
    ∃ s : System (Fin 3) Unit, handoffThenSend.foldlM System.step (init 16384 65535) = some s ∧
      (s.handoffs, s.requests.length) = (1, 2) ∧ s.Exclusive := by
  have hrun : (handoffThenSend.foldlM (Transition.checked System.step (Rechecks False))
      (init 16384 65535)).map (fun s => (s.handoffs, s.requests.length)) = some (1, 2) := by
    decide +kernel
  obtain ⟨s, hs, hcount⟩ := Option.map_eq_some_iff.mp hrun
  exact ⟨s, Transition.foldlM_of_checked hs, hcount, exclusive_of_reach (.of_checked hs)⟩

/-- Thread 2 takes the socket. Thread 0 gets it back, and thread 1 waits for that. Before thread 1
goes on, thread 0 queues its request and begins to flush it. -/
def handoffThenFlush : List (Action (Fin 3) Unit) :=
  [.call 2 (.takeSocket 0), .run 2 writes, .call 0 (.send (wordCall true)), .run 0 writes,
    .call 1 (.send (wordCall true)), .run 1 writes, .run 0 writes, .call 0 .flush, .run 0 writes,
    .run 1 writes]

/-- Thread 1 numbers its request while thread 0 writes. -/
theorem not_exclusive_awaitSocket :
    ∃ s : System (Fin 3) Unit,
      Transition.Reach System.step (fun _ _ => True) (init 16384 65535) s ∧ ¬ s.Exclusive := by
  have hrun : (handoffThenFlush.foldlM System.step (init 16384 65535)).map (fun s =>
      s.log.any fun entry => match entry with
        | .numbered writing _ => writing != 0
        | _ => false) = some true := by
    decide +kernel
  obtain ⟨s, hs, hfound⟩ := Option.map_eq_some_iff.mp hrun
  refine ⟨s, .of_foldlM (fun _ _ _ => trivial) hs, fun hexclusive => ?_⟩
  obtain ⟨entry, hentry, hnumbered⟩ := List.any_eq_true.mp hfound
  split at hnumbered
  · next writing owned => simp [(hexclusive.numbered writing owned hentry).1] at hnumbered
  · cases hnumbered

/-- **The socket is handed over in order**, as long as threads that waited find things as they ought
to. -/
theorem handsOver_of_reach
    (h : Transition.Reach System.step (Rechecks True) (init size maximum) s) {a : Action τ β}
    (hok : s.Rechecks True a) (hstep : s.step a = some u) : s.HandsOver u := by
  obtain ⟨turn, hheld, hs⟩ := orderly_of_reach h
  obtain ⟨⟨next, -, hu⟩, -, htells⟩ := ends_step hs hheld hok hstep
  refine ⟨fun sent last hmem _ => ?_, fun holds hmem => htells _ hmem trivial⟩
  obtain ⟨hempty, hrequest, hwritten, handoff, hsome, hlast⟩ := htells _ hmem
  refine ⟨hempty, hrequest, hwritten trivial, fun k hk => ?_⟩
  refine hu.callsBack.former k (by omega) fun heq => ?_
  rw [hsome, Option.some_inj] at heq
  omega

/-- Thread 0 takes the socket of a new connection. -/
theorem handsOver_first :
    ∃ s u : System (Fin 3) Unit, s.step (.run 0 writes) = some u ∧
      u.conn.out.returnSocket = some 0 ∧ s.HandsOver u := by
  set s : System (Fin 3) Unit := (init 16384 65535).setPc 0 (.lock (.takeSocket 0))
  have hreach : Transition.Reach System.step (Rechecks True) (init 16384 65535) s :=
    .single trivial (a := .call 0 (.takeSocket 0)) rfl
  have hok : s.Rechecks True (.run 0 writes) := fun _ => ⟨by decide, fun _ _ _ => rfl⟩
  have hrun : (s.step (.run 0 writes)).map (fun u => u.conn.out.returnSocket) = some (some 0) := by
    decide +kernel
  obtain ⟨u, hstep, hsome⟩ := Option.map_eq_some_iff.mp hrun
  exact ⟨s, u, hstep, hsome, handsOver_of_reach hreach hok hstep⟩

/-- Thread 2 waits until thread 0 has written its request. Before it goes on, thread 1 queues
another one. -/
def flushThenSend : List (Action (Fin 3) Unit) :=
  [.call 0 (.send (wordCall true)), .run 0 writes, .call 0 .flush, .run 0 writes,
    .call 2 (.takeSocket 0), .run 2 writes, .run 0 writes, .call 1 (.send (wordCall true)),
    .run 1 writes]

/-- Was the socket handed over? -/
def isTaken : Entry β → Bool
  | .took (some _) _ => true
  | _ => false

theorem exists_of_isTaken {entry : Entry β} (h : isTaken entry = true) :
    ∃ sent last, entry = .took (some sent) last := by
  cases entry with
  | took sent last =>
    cases sent with
    | none => cases h
    | some sent => exact ⟨sent, last, rfl⟩
  | _ => cases h

/-- Thread 2 takes the socket while a request waits in the queue. -/
theorem not_handsOver_awaitWritten :
    ∃ s u : System (Fin 3) Unit,
      Transition.Reach System.step (fun _ _ => True) (init 16384 65535) s ∧
        s.step (.run 2 writes) = some u ∧ u.conn.hasError = false ∧ ¬ s.HandsOver u := by
  have hrun : ((flushThenSend.foldlM System.step (init 16384 65535)).bind fun s =>
      (s.step (.run 2 writes)).map fun u => !u.conn.hasError && u.conn.out.queueLen != 0 &&
        (u.log.drop s.log.length).any isTaken) = some true := by
    decide +kernel
  obtain ⟨s, hs, hrest⟩ := Option.bind_eq_some_iff.mp hrun
  obtain ⟨u, hu, hfound⟩ := Option.map_eq_some_iff.mp hrest
  rw [Bool.and_eq_true, Bool.and_eq_true, List.any_eq_true, Bool.not_eq_true', bne_iff_ne] at hfound
  obtain ⟨⟨herror, hqueue⟩, entry, hentry, htook⟩ := hfound
  refine ⟨s, u, .of_foldlM (fun _ _ _ => trivial) hs, hu, herror, fun hover => ?_⟩
  obtain ⟨sent, last, rfl⟩ := exists_of_isTaken htook
  exact hqueue (hover.took sent last hentry herror).1

end System

end Xcb
