import Xcb.Stream
import Xcb.Wakeup

/-!
# The order of the readers

The list of readers is sorted by requests as signed numbers, whatever they are, and each thread
takes out its own node. Requests are numbered in a circle, though. The list is in that order as long
as the requests of the threads that wait do not lie on both sides of the point where the signed
numbers go round.

## Main definitions

* `System.OwnNodes` — the list holds a node for each thread that has one, which it takes out
* `System.Sorted` — the list is in the order of the circle
* `System.Together` — the requests of the threads that wait can be subtracted

## Main results

* `System.ownNodes_of_reach` — the list, for every run
* `System.not_sorted_turn` — two requests that are close, and in the wrong order
-/

namespace Xcb

variable {τ β : Type}

/-! ### One reply after the other -/

/-- The reply to request `n`. -/
def replyTo (n : ℕ) : Packet Unit := ⟨xcbReply, BitVec.ofNat 16 n, ()⟩

/-- One reply more. -/
theorem XcbIn.Replied.readPacket {c : XcbIn τ Unit} {k : ℕ} (h : c.Replied k) :
    (c.readPacket (replyTo (k + 1))).1.Replied (k + 1) := by
  have hkeymap : (replyTo (k + 1)).isKeymapNotify = false := by
    show (xcbReply &&& 0x7f == xcbKeymapNotify) = false
    decide
  have hwiden : widenSequence c.requestRead (replyTo (k + 1)).sequence =
      BitVec.ofNat 64 (k + 1) := by
    rw [h.requestRead]
    exact widenSequence_ofNat (by omega) (by omega)
  have hnew : BitVec.ofNat 64 (k + 1) ≠ BitVec.ofNat 64 k := by bv_omega
  have hroute : route ((c.advance (replyTo (k + 1))).matchPending (replyTo (k + 1)))
      (replyTo (k + 1)) ≠ .eventQueue := by
    unfold route
    split
    · exact Route.noConfusion
    · exact Route.noConfusion
  have hadvance := c.advance_of_not_keymapNotify _ hkeymap
  rw [hwiden] at hadvance
  refine ⟨?_, ?_, ?_⟩
  · rw [XcbIn.readPacket_fst]
    exact (c.advance_requestRead _ hkeymap).trans hwiden
  · rw [XcbIn.readPacket_fst]
    show (c.advance _).requestCompleted = _
    rw [hadvance]
    show (if BitVec.ofNat 64 (k + 1) ≠ c.requestRead then BitVec.ofNat 64 (k + 1) - 1
      else c.requestCompleted) = _
    rw [h.requestRead, if_pos hnew, Nat.add_sub_cancel]
    bv_omega
  · rw [XcbIn.readPacket_fst]
    show (if _ then _ else (c.advance _).events) = _
    rw [if_neg hroute, XcbIn.advance_events, h.events]

namespace System

variable {s u : System τ β}

/-! ### What the list should be -/

/-- Requests are in the order of the circle. -/
def Sorted (s : System τ β) : Prop :=
  s.conn.inp.readers.Pairwise fun r q => Serial.dist r.request q.request ≤ 0

/-- The requests of threads with a node can be subtracted as `int`s. -/
def Together (s : System τ β) : Prop :=
  ∀ t u r q, (s.threads t).hasNode = some r → (s.threads u).hasNode = some q →
    r.toInt ≤ q.toInt → Serial.Fits r q

/-- In a list that is sorted as signed numbers, the circle agrees with them where they can be
subtracted. -/
theorem fits_of_pairwise {readers : List (Reader τ)} (h : readers.Pairwise Reader.NotLater)
    (hsorted : readers.Pairwise fun r q => Serial.dist r.request q.request ≤ 0) :
    ∀ r ∈ readers, ∀ q ∈ readers, r.request.toInt ≤ q.request.toInt →
      Serial.Fits r.request q.request := by
  refine List.Pairwise.forall_of_forall_of_flip
    (R := fun r q : Reader τ => r.request.toInt ≤ q.request.toInt →
      Serial.Fits r.request q.request) (fun r _ _ => Serial.Fits.refl r.request) ?_ ?_
  · exact hsorted.imp fun hrq hle => (Serial.dist_nonpos_iff (by norm_num) hle).mp hrq
  · -- a reader that comes first is not later, so the two requests are the same
    refine h.imp fun {r q} hrq hle => ?_
    have heq : q.request.toInt = r.request.toInt := le_antisymm hle ((notLater_iff r q).mp hrq)
    rw [BitVec.eq_of_toInt_eq heq]
    exact Serial.Fits.refl r.request

theorem Queued.sorted_iff (h : s.Queued) : s.Sorted ↔ s.Together := by
  refine ⟨fun hsorted t u r q ht hu hle => ?_, fun htogether => ?_⟩
  · exact fits_of_pairwise h.sorted hsorted ⟨r, t⟩ ((h.mem_iff _).mpr ht) ⟨q, u⟩
      ((h.mem_iff _).mpr hu) hle
  · refine h.sorted.imp_of_mem fun {r q} hr hq hrq => ?_
    have hle := (notLater_iff r q).mp hrq
    exact (Serial.dist_nonpos_iff (by norm_num) hle).mpr
      (htogether r.data q.data _ _ ((h.mem_iff r).mp hr) ((h.mem_iff q).mp hq) hle)

variable [DecidableEq τ]

/-- Each thread has its own node. -/
structure OwnNodes (s : System τ β) : Prop where
  nodup : (s.conn.inp.readers.map Reader.data).Nodup
  mem_iff : ∀ r, r ∈ s.conn.inp.readers ↔ (s.threads r.data).hasNode = some r.request
  /-- The walk of a thread that has a node ends at it. -/
  removes : ∀ t request, (s.threads t).hasNode = some request →
    ∃ before after, s.conn.inp.readers = before ++ ⟨request, t⟩ :: after ∧
      removeReader ⟨request, t⟩ s.conn.inp.readers = before ++ after
  /-- So does that of a thread that has just linked it in. -/
  undoes : ∀ t request, (s.threads t).hasNode = none →
    removeReader ⟨request, t⟩ (insertReader ⟨request, t⟩ s.conn.inp.readers) = s.conn.inp.readers

theorem Queued.ownNodes (h : s.Queued) : s.OwnNodes where
  nodup := h.nodup
  mem_iff := h.mem_iff
  removes _ _ hnode := removeReader_of_mem h.sorted h.nodup ((h.mem_iff _).mpr hnode)
  undoes _ _ hnode := removeReader_insertReader (h.data_ne hnode)

variable [Fintype τ]

/-- **The list of readers** holds exactly one node for each thread that has linked one in, and each
thread takes out its own node and no other. It is in the order of the circle exactly when the
requests can be subtracted. -/
theorem ownNodes_of_reach {size : ℕ} {maximum : BitVec 16}
    (h : Transition.Reach step (fun _ _ => True) (init size maximum) s) :
    s.OwnNodes ∧ (s.Sorted ↔ s.Together) := by
  have hqueued := queued_of_reach h
  exact ⟨hqueued.ownNodes, hqueued.sorted_iff⟩

/-- Both have their nodes in the list. -/
theorem ownNodes_twice :
    waitTwice.conn.inp.readers = [⟨1, 0⟩, ⟨1, 1⟩] ∧ waitTwice.OwnNodes ∧ waitTwice.Sorted := by
  have hnode : ∀ t, (waitTwice.threads t).hasNode = some 1 := by decide
  obtain ⟨hown, hsorted⟩ := ownNodes_of_reach reach_waitTwice
  refine ⟨rfl, hown, hsorted.mpr fun t u r q ht hu _ => ?_⟩
  rw [hnode] at ht hu
  cases ht
  cases hu
  decide

/-! ### Two threads and the replies to many requests -/

/-- The replies to the `j` requests after the first `k` are there. -/
def replies (k j : ℕ) : Env (Fin 2) Unit :=
  { silent with pollin := true, recv := ⟨(List.range' (k + 1) j).map replyTo, none, false⟩ }

omit [Fintype τ] in
theorem replied_readPackets {s : System τ Unit} {e : Env τ Unit} {k j : ℕ}
    (h : s.conn.inp.Replied k) :
    (s.readPackets e ((List.range' (k + 1) j).map replyTo)).conn.inp.Replied (k + j) := by
  induction j generalizing s k with
  | zero => exact h
  | succ j ih =>
    have hfirst : (s.readPacket e (replyTo (k + 1))).conn.inp.Replied (k + 1) := by
      rw [inp_readPacket]
      exact h.readPacket
    rw [List.range'_succ, List.map_cons, show k + (j + 1) = k + 1 + j by omega]
    exact ih hfirst

omit [Fintype τ] in
theorem hasError_readPackets {s : System τ β} {e : Env τ β}
    {packets : List (Packet β)} :
    (s.readPackets e packets).conn.hasError = s.conn.hasError := by
  induction packets generalizing s with
  | nil => rfl
  | cons p packets ih =>
    refine ih.trans ?_
    show (s.readPacket e p).conn.hasError = _
    rw [readPacket]
    split
    · rw [conn_signal]
      rfl
    · rfl

/-- Of `n` requests, which are written, the first `k` have been answered. Each thread is out of its
calls, or waits with one of these nodes. -/
structure Answered (n k : ℕ) (readers : List (Reader (Fin 2))) (s : System (Fin 2) Unit) :
    Prop where
  hasError : s.conn.hasError = false
  returnSocket : s.conn.out.returnSocket = none
  request : s.conn.out.request = BitVec.ofNat 64 n
  requestWritten : s.conn.out.requestWritten = BitVec.ofNat 64 n
  replied : s.conn.inp.Replied k
  nodes : s.conn.inp.readers = readers
  threads : ∀ v, s.threads v = .idle ∨
    ∃ request, (s.threads v).waitsFor = some request ∧ ⟨request, v⟩ ∈ readers

omit [DecidableEq τ] [Fintype τ] in
/-- Writing does not concern the window. -/
theorem Action.Writes.windowed {a : Action τ β} (h : a.Writes) (s : System τ β) :
    s.Windowed a := by
  cases a with
  | call t call => cases call <;> trivial
  | _ => trivial

section answered

variable {s : System (Fin 2) Unit} {n k m : ℕ} {readers : List (Reader (Fin 2))} {t : Fin 2}

theorem Busy.answered {expected : BitVec 64} (h : Busy (fun _ => .idle) n n 0 0 expected s) :
    Answered n 0 [] s :=
  ⟨h.hasError, h.returnSocket, h.request, h.requestWritten, h.replied, h.readers,
    fun v => .inl (by rw [h.threads])⟩

theorem Answered.idle (h : Answered n k readers s) (hnode : ∀ r ∈ readers, r.data ≠ t) :
    s.threads t = .idle := by
  rcases h.threads t with hidle | ⟨request, -, hmem⟩
  · exact hidle
  · exact absurd rfl (hnode _ hmem)

/-- A thread reads the next replies while it looks for an event. -/
theorem Answered.read (h : Answered n k readers s) (hnode : ∀ r ∈ readers, r.data ≠ t) (j : ℕ) :
    ∃ u, Transition.Reach System.step Windowed s u ∧ Answered n (k + j) readers u := by
  have hidle := h.idle hnode
  set v := (s.setPc t (.lock .pollForEvent)).setPc t .idle with hv
  set w := v.readPackets (replies k j) ((List.range' (k + 1) j).map replyTo) with hw
  have hreads : Reads v w := reads_readPackets v _ _
  have hreplied : w.conn.inp.Replied (k + j) := replied_readPackets (s := v) h.replied
  have hcall : s.step (.call t .pollForEvent) = some (s.setPc t (.lock .pollForEvent)) := by
    simp [System.step, System.call, hidle, MayCall, h.hasError, enter]
  have hempty : v.conn.inp.getEvent = (none, v.conn.inp) := by
    rw [XcbIn.getEvent, show v.conn.inp.events = [] from h.replied.events]
  have hnone : w.conn.inp.getEvent = (none, w.conn.inp) := by
    rw [XcbIn.getEvent, hreplied.events]
  have hrun : (s.setPc t (.lock .pollForEvent)).step (.run t (replies k j)) =
      some (w.leave t (.event none)) := by
    have hpoll : v.pollEvent (replies k j) t = w.leave t (.event none) := by
      have hread : v.inRead (replies k j) = (w, true) := rfl
      rw [System.pollEvent, hempty]
      show (if (v.inRead (replies k j)).2 then _ else _) = _
      rw [hread, if_pos rfl]
      show (w.setInp w.conn.inp.getEvent.2).leave t (.event w.conn.inp.getEvent.1) = _
      rw [hnone]
      rfl
    rw [← hpoll]
    simp [System.step, System.run, start, hv]
  refine ⟨_, (Transition.Reach.single (by trivial) hcall).tail (by trivial) hrun, ?_⟩
  refine ⟨hasError_readPackets.trans h.hasError, ?_, ?_, ?_, hreplied, ?_, fun x => ?_⟩
  · exact (congrArg XcbOut.returnSocket hreads.out).trans h.returnSocket
  · exact (congrArg XcbOut.request hreads.out).trans h.request
  · exact (congrArg XcbOut.requestWritten hreads.out).trans h.requestWritten
  · exact hreads.readers.trans h.nodes
  · by_cases hx : x = t
    · exact .inl (by rw [hx]; exact Function.update_self _ _ _)
    · have hsame : (w.leave t (.event none)).threads x = s.threads x := by
        rw [show (w.leave t (.event none)).threads x =
          w.threads x from Function.update_of_ne hx _ _,
          hreads.threads, hv, threads_setPc_of_ne _ hx, threads_setPc_of_ne _ hx]
      rw [hsame]
      exact h.threads x

/-- A thread begins to wait for a reply. -/
theorem Answered.wait (h : Answered n k readers s) (hnode : ∀ r ∈ readers, r.data ≠ t) (hle : m ≤ n)
    (hlt : n < m + 2 ^ 32)
    (hwindow : s.Windowed (.call t (.waitForReply (BitVec.ofNat 32 m))))
    (hdecided : ¬ s.conn.inp.Decided (BitVec.ofNat 32 m)) :
    ∃ u, Transition.Reach System.step Windowed s u ∧
      Answered n k (insertReader ⟨BitVec.ofNat 32 m, t⟩ readers) u := by
  have hidle := h.idle hnode
  refine ⟨_, reach_waitAtOnce (.refl s) hidle h.hasError hwindow fun _ => trivial, ?_⟩
  set request := BitVec.ofNat 32 m with hrequest
  have hwiden : widenRequest s.conn.out.request request = BitVec.ofNat 64 m := by
    rw [h.request]
    exact widenRequest_ofNat hle hlt
  have hwritten : sequenceCompare s.conn.out.requestWritten (BitVec.ofNat 64 m) ≥ 0 := by
    rw [h.requestWritten, sequenceCompare_ofNat (by omega) (by omega)]
    omega
  -- its request is written, so it links its node in and waits
  set v := (((s.setPc t (.lock (.waitForReply request))).setPc t .idle).check .flushToRequest
    (sequenceCompare (BitVec.ofNat 64 m) s.conn.out.request ≤ 0)).setInp
      { s.conn.inp with readers := insertReader ⟨request, t⟩ s.conn.inp.readers } with hv
  have hstart : s.waitAtOnce t request = v.waitReply silent t request := by
    rw [waitAtOnce, start]
    show (if s.conn.out.returnSocket.isSome then _ else _) = _
    rw [h.returnSocket, if_neg (by decide)]
    show System.flushTo _ silent t (.waitForReply request)
      (widenRequest s.conn.out.request request) = _
    rw [hwiden, System.flushTo]
    exact if_pos hwritten
  have hnone : (v.conn.inp.pollForReply request).1 = none := by
    have hsame : XcbIn.Collects s.conn.inp v.conn.inp := ⟨rfl, rfl, id⟩
    have hnot : ¬ v.conn.inp.Decided request := fun hv => hdecided (hsame.decided hv)
    rwa [XcbIn.Decided, Bool.not_eq_true, Option.isSome_eq_false_iff, Option.isNone_iff_eq_none]
      at hnot
  have hwait : v.waitReply silent t request = v.waitRead t (.reply request) := by
    rw [System.waitReply, hnone, XcbIn.pollForReply_of_none hnone]
    rfl
  have hlinked : v.conn.inp.readers = insertReader ⟨request, t⟩ readers := by
    rw [← h.nodes]
    rfl
  have hthreads : ∀ pc : Pc, pc.waitsFor = some request → ∀ x,
      Function.update v.threads t pc x = .idle ∨ ∃ request',
        (Function.update v.threads t pc x).waitsFor = some request' ∧
          ⟨request', x⟩ ∈ insertReader ⟨request, t⟩ readers := by
    intro pc hpc x
    by_cases hx : x = t
    · rw [hx, Function.update_self]
      exact .inr ⟨request, hpc, mem_insertReader.mpr (.inl rfl)⟩
    · have hsame : v.threads x = s.threads x := by
        show ((s.setPc t _).setPc t .idle).threads x = _
        rw [threads_setPc_of_ne _ hx, threads_setPc_of_ne _ hx]
      rw [Function.update_of_ne hx, hsame]
      refine (h.threads x).imp_right ?_
      rintro ⟨request', hwaits, hmem⟩
      exact ⟨request', hwaits, mem_insertReader.mpr (.inr hmem)⟩
  rw [hstart, hwait, System.waitRead]
  have hreplied := h.replied
  split
  · exact ⟨h.hasError, h.returnSocket, h.request, h.requestWritten,
      ⟨hreplied.requestRead, hreplied.requestCompleted, hreplied.events⟩, hlinked, hthreads _ rfl⟩
  · exact ⟨h.hasError, h.returnSocket, h.request, h.requestWritten,
      ⟨hreplied.requestRead, hreplied.requestCompleted, hreplied.events⟩, hlinked, hthreads _ rfl⟩

theorem Answered.windowed (h : Answered n k readers s) (base : BitVec 32) {request : BitVec 32}
    (hbase : Serial.offset base request < 2 ^ 31)
    (hall : ∀ r ∈ readers, Serial.offset base r.request < 2 ^ 31) :
    s.Windowed (.call t (.waitForReply request)) := by
  refine ⟨base, hbase, fun v request' hv => ?_⟩
  rcases h.threads v with hidle | ⟨request'', hwaits, hmem⟩
  · rw [hidle] at hv
    cases hv
  · rw [hwaits] at hv
    cases hv
    exact hall _ hmem

theorem Answered.decided_iff (h : Answered n k readers s) (request : BitVec 32)
    (hzero : request ≠ 0) (hread : request ≠ BitVec.ofNat 32 k) :
    s.conn.inp.Decided request ↔ request.toInt < (BitVec.ofNat 32 k).toInt ∨
      request = BitVec.ofNat 32 (k - 1) := by
  rw [XcbIn.decided_iff, h.replied.requestRead, h.replied.requestCompleted, low32_ofNat,
    low32_ofNat]
  simp only [sequenceCompare32_eq_zero_iff]
  rw [sequenceCompare32, sub_neg, or_iff_right hzero]
  simp [hread]

end answered

/-- **Around the turn.** Thread 0 waits for request `0x7fffffff` and thread 1, when replies up to
number `0x80000005` have been read, for `0x80000010`. That is linked in before the other. -/
theorem not_sorted_turn :
    ∃ s : System (Fin 2) Unit, Transition.Reach System.step Windowed (init 16384 65535) s ∧
      s.conn.inp.readers = [⟨0x80000010, 1⟩, ⟨0x7fffffff, 0⟩] ∧ ¬ s.Sorted := by
  obtain ⟨s₁, hs₁, hbusy⟩ := busy_init.reach_nonvoid (t := 1) rfl
    (show 0 + (2 ^ 31 + 16) < 2 ^ 64 by norm_num)
  have hwrites : Transition.Reach System.step Windowed (init 16384 65535) s₁ :=
    hs₁.mono fun s a ha => ha.windowed s
  -- the first replies are read one by one
  obtain ⟨s₂, hs₂, hread⟩ := Transition.Reach.iterate (N := 0x7ffffff0)
    (P := fun j u => Answered (0 + (2 ^ 31 + 16)) j [] u)
    (fun j _ u hu => hu.read (t := 1) nofun 1) hbusy.answered
  have hopen : ¬ s₂.conn.inp.Decided (BitVec.ofNat 32 0x7fffffff) := by
    rw [hread.decided_iff _ (by decide) (by decide)]
    decide
  obtain ⟨s₃, hs₃, hfirst⟩ := hread.wait (t := 0) nofun (by norm_num) (by norm_num)
    (hread.windowed 0x7fffffff (by decide) nofun) hopen
  -- and the reply for thread 0 together with later ones
  obtain ⟨s₄, hs₄, hmore⟩ := hfirst.read (t := 1) (by decide) 21
  have hopen' : ¬ s₄.conn.inp.Decided (BitVec.ofNat 32 0x80000010) := by
    rw [hmore.decided_iff _ (by decide) (by decide)]
    decide
  obtain ⟨s₅, hs₅, hlast⟩ := hmore.wait (t := 1) (by decide) (by norm_num) (by norm_num)
    (hmore.windowed 0x7fffffff (by decide) (by decide)) hopen'
  have hreaders : s₅.conn.inp.readers = [⟨0x80000010, 1⟩, ⟨0x7fffffff, 0⟩] := hlast.nodes
  refine ⟨s₅, (((hwrites.trans hs₂).trans hs₃).trans hs₄).trans hs₅, hreaders, fun hsorted => ?_⟩
  rw [Sorted, hreaders] at hsorted
  exact absurd hsorted (by decide)

end System

end Xcb
