import Xcb.Readers
import Xcb.Sequence

/-!
# The list of readers

`xcb_wait_for_reply` links a node on its own stack into `c->in.readers`, and takes it out again
before it returns. Both walks go by the requests of the readers: the first one puts the node behind
all that are not later, and the second one gives up where it should have been.

## Main definitions

* `Pc.hasNode` — the request of a thread whose node is in the list
* `System.Queued` — what the list looks like between two steps

## Main results

* `pairwise_insertReader`, `removeReader_append` — what the two walks do
* `Linked.insert`, `Linked.remove` — what they do to the list as a whole
* `System.queued_of_reach` — the list, for every run
-/

namespace Xcb

variable {τ β : Type}

/-! ### The two walks -/

/-- The order of the list. -/
def Reader.NotLater (r q : Reader τ) : Prop := sequenceCompare32 r.request q.request ≤ 0

theorem notLater_iff (r q : Reader τ) : r.NotLater q ↔ r.request.toInt ≤ q.request.toInt :=
  sub_nonpos

theorem Reader.NotLater.refl (r : Reader τ) : r.NotLater r := (sequenceCompare32_self r.request).le

theorem Reader.NotLater.trans {r q v : Reader τ} (h : r.NotLater q) (h' : q.NotLater v) :
    r.NotLater v :=
  (notLater_iff r v).mpr (((notLater_iff r q).mp h).trans ((notLater_iff q v).mp h'))

theorem Reader.NotLater.of_not {r q : Reader τ} (h : ¬ r.NotLater q) : q.NotLater r := by
  rw [notLater_iff] at h ⊢
  omega

theorem perm_insertReader (reader : Reader τ) (readers : List (Reader τ)) :
    (insertReader reader readers).Perm (reader :: readers) := by
  induction readers with
  | nil => exact .refl _
  | cons r next ih =>
    rw [insertReader]
    split
    · exact (ih.cons r).trans (.swap reader r next)
    · exact .refl _

theorem mem_insertReader {reader r : Reader τ} {readers : List (Reader τ)} :
    r ∈ insertReader reader readers ↔ r = reader ∨ r ∈ readers := by
  rw [(perm_insertReader reader readers).mem_iff, List.mem_cons]

/-- **Insertion** keeps the order. -/
theorem pairwise_insertReader {reader : Reader τ} {readers : List (Reader τ)}
    (h : readers.Pairwise Reader.NotLater) :
    (insertReader reader readers).Pairwise Reader.NotLater := by
  induction readers with
  | nil => exact List.pairwise_singleton _ _
  | cons r next ih =>
    obtain ⟨hr, hnext⟩ := List.pairwise_cons.mp h
    rw [insertReader]
    split
    · next hle =>
      refine List.pairwise_cons.mpr ⟨?_, ih hnext⟩
      intro q hq
      rcases mem_insertReader.mp hq with rfl | hq
      · exact hle
      · exact hr q hq
    · next hlt =>
      have hbefore : reader.NotLater r := Reader.NotLater.of_not hlt
      refine List.pairwise_cons.mpr ⟨?_, h⟩
      intro q hq
      rcases List.mem_cons.mp hq with rfl | hq
      · exact hbefore
      · exact hbefore.trans (hr q hq)

variable [DecidableEq τ]

/-- **Removal** goes past every node that is not later, and takes out its own. -/
theorem removeReader_append {reader : Reader τ} {before after : List (Reader τ)}
    (h : ∀ r ∈ before, r.NotLater reader ∧ r.data ≠ reader.data) :
    removeReader reader (before ++ reader :: after) = before ++ after := by
  induction before with
  | nil =>
    have hself : sequenceCompare32 reader.request reader.request ≤ 0 :=
      Reader.NotLater.refl reader
    rw [List.nil_append, removeReader, if_pos hself, if_pos rfl, List.nil_append]
  | cons r before ih =>
    have hle : sequenceCompare32 r.request reader.request ≤ 0 := (h r List.mem_cons_self).1
    rw [List.cons_append, removeReader, if_pos hle, if_neg (h r List.mem_cons_self).2,
      ih fun q hq => h q (List.mem_cons_of_mem _ hq), List.cons_append]

/-- In a sorted list without a second node of the same thread, that is its own node. -/
theorem removeReader_of_mem {reader : Reader τ} {readers : List (Reader τ)}
    (hsorted : readers.Pairwise Reader.NotLater) (hnodup : (readers.map Reader.data).Nodup)
    (hmem : reader ∈ readers) : ∃ before after, readers = before ++ reader :: after ∧
      removeReader reader readers = before ++ after := by
  obtain ⟨before, after, rfl⟩ := List.append_of_mem hmem
  refine ⟨before, after, rfl, removeReader_append fun r hr => ⟨?_, ?_⟩⟩
  · exact (List.pairwise_append.mp hsorted).2.2 r hr reader List.mem_cons_self
  · rw [List.map_append, List.map_cons] at hnodup
    have hdisjoint := (List.nodup_append.mp hnodup).2.2
    exact hdisjoint r.data (List.mem_map_of_mem hr) reader.data List.mem_cons_self

/-- What is taken out at once leaves the list as it was. -/
theorem removeReader_insertReader {reader : Reader τ} {readers : List (Reader τ)}
    (h : ∀ r ∈ readers, r.data ≠ reader.data) :
    removeReader reader (insertReader reader readers) = readers := by
  induction readers with
  | nil => exact @removeReader_append τ _ reader [] [] nofun
  | cons r next ih =>
    rw [insertReader]
    split
    · next hle =>
      rw [removeReader, if_pos hle, if_neg (h r List.mem_cons_self),
        ih fun q hq => h q (List.mem_cons_of_mem _ hq)]
    · exact @removeReader_append τ _ reader [] (r :: next) nofun

/-! ### The list and the threads -/

/-- The list holds one node for each thread that `node` says has one, in order. -/
structure Linked (readers : List (Reader τ)) (node : τ → Option (BitVec 32)) : Prop where
  sorted : readers.Pairwise Reader.NotLater
  nodup : (readers.map Reader.data).Nodup
  mem_iff : ∀ r, r ∈ readers ↔ node r.data = some r.request

namespace Linked

variable {readers : List (Reader τ)} {node : τ → Option (BitVec 32)} {t : τ} {request : BitVec 32}

omit [DecidableEq τ] in
/-- A thread without a node has none in the list. -/
theorem data_ne (h : Linked readers node) (hnode : node t = none) :
    ∀ r ∈ readers, r.data ≠ t := by
  rintro r hr rfl
  rw [h.mem_iff, hnode] at hr
  cases hr

/-- A thread links its node in. -/
theorem insert (h : Linked readers node) (hnode : node t = none) :
    Linked (insertReader ⟨request, t⟩ readers) (Function.update node t (some request)) := by
  have hperm := perm_insertReader ⟨request, t⟩ readers
  refine ⟨pairwise_insertReader h.sorted, ?_, ?_⟩
  · rw [(hperm.map Reader.data).nodup_iff, List.map_cons, List.nodup_cons]
    refine ⟨fun hmem => ?_, h.nodup⟩
    obtain ⟨r, hr, hdata⟩ := List.mem_map.mp hmem
    exact h.data_ne hnode r hr hdata
  · intro r
    rw [mem_insertReader, h.mem_iff]
    by_cases ht : r.data = t
    · rw [ht, Function.update_self, hnode]
      obtain ⟨request', data⟩ := r
      cases ht
      simp [eq_comm]
    · rw [Function.update_of_ne ht]
      refine or_iff_right ?_
      rintro rfl
      exact ht rfl

/-- And takes it out. -/
theorem remove (h : Linked readers node) (hnode : node t = some request) :
    Linked (removeReader ⟨request, t⟩ readers) (Function.update node t none) := by
  obtain ⟨before, after, hreaders, hremove⟩ :=
    removeReader_of_mem h.sorted h.nodup ((h.mem_iff ⟨request, t⟩).mpr hnode)
  have hsub : (before ++ after).Sublist readers := by
    rw [hreaders]
    exact (List.sublist_cons_self _ after).append_left before
  have hnodup := h.nodup
  rw [hreaders, List.map_append, List.map_cons, List.nodup_middle, List.nodup_cons,
    ← List.map_append] at hnodup
  rw [hremove]
  refine ⟨h.sorted.sublist hsub, hnodup.2, fun r => ?_⟩
  · by_cases ht : r.data = t
    · rw [ht, Function.update_self]
      refine iff_of_false (fun hr => hnodup.1 ?_) nofun
      exact List.mem_map.mpr ⟨r, hr, ht⟩
    · rw [Function.update_of_ne ht, ← h.mem_iff, hreaders, List.mem_append, List.mem_append,
        List.mem_cons]
      refine or_congr_right (or_iff_right ?_).symm
      rintro rfl
      exact ht rfl

end Linked

/-! ### Where a thread is -/

def Waiter.waitsFor : Waiter → Option (BitVec 32)
  | .reply request => some request
  | .event => none

/-- The request of the thread's node: it has one from when its request was written on. -/
def Pc.hasNode : Pc → Option (BitVec 32)
  | .awaitReader waiter | .pollIn _ waiter => waiter.waitsFor
  | _ => none

namespace System

variable {s u : System τ β} {t : τ} {node : Option (BitVec 32)}

/-- What the list looks like while thread `t` runs: it has a node for `node`. -/
def Listed (s : System τ β) (t : τ) (node : Option (BitVec 32)) : Prop :=
  Linked s.conn.inp.readers (Function.update (fun v => (s.threads v).hasNode) t node)

omit [DecidableEq τ] in
/-- What it looks like between two steps. -/
def Queued (s : System τ β) : Prop :=
  Linked s.conn.inp.readers fun v => (s.threads v).hasNode

/-- The list and the threads are all that matters. -/
theorem Listed.congr (h : s.Listed t node)
    (hreaders : u.conn.inp.readers = s.conn.inp.readers) (hthreads : u.threads = s.threads) :
    u.Listed t node := by
  rw [Listed, hreaders, hthreads]
  exact h

theorem Listed.of_reads (h : s.Listed t node) (hreads : Reads s u) : u.Listed t node :=
  h.congr hreads.readers hreads.threads

theorem Listed.setOut (h : s.Listed t node) (out : XcbOut) :
    (s.setOut out).Listed t node :=
  h.congr rfl rfl

theorem Listed.note (h : s.Listed t node) (entry : Entry β) :
    (s.note entry).Listed t node :=
  h.congr rfl rfl

theorem Listed.setReading (h : s.Listed t node) (reading : ℕ) :
    (s.setInp { s.conn.inp with reading := reading }).Listed t node :=
  h.congr rfl rfl

/-- What a function of the place of a thread becomes when thread `t` goes somewhere. -/
theorem update_threads {α : Type} (s : System τ β) (t : τ) (pc : Pc) (f : Pc → α) :
    (fun v => f ((s.setPc t pc).threads v)) =
      Function.update (fun v => f (s.threads v)) t (f pc) := by
  funext v
  by_cases hv : v = t
  · rw [hv, threads_setPc_self, Function.update_self]
  · rw [threads_setPc_of_ne s hv, Function.update_of_ne hv]

/-- A thread stops running. -/
theorem Listed.setPc (h : s.Listed t node) {pc : Pc} (hnode : pc.hasNode = node) :
    (s.setPc t pc).Queued := by
  rw [Queued, update_threads s t pc Pc.hasNode, hnode]
  exact h

/-- A thread begins to run. -/
theorem Queued.listed (h : s.Queued) (t : τ) : s.Listed t (s.threads t).hasNode := by
  rw [Listed, Function.update_eq_self]
  exact h

/-- Where it was before does not matter. -/
theorem Listed.idle (h : s.Listed t node) (pc : Pc) : (s.setPc t pc).Listed t node := by
  rw [Listed, update_threads s t pc Pc.hasNode, Function.update_idem]
  exact h

/-! ### Reading -/

section reading

variable {e : Env τ β} {request : BitVec 32}

theorem Listed.leave (h : s.Listed t none) (entry : Entry β) : (s.leave t entry).Queued :=
  h.setPc rfl

theorem Listed.removeReader (h : s.Listed t (some request)) :
    (s.setInp { s.conn.inp with
      readers := removeReader ⟨request, t⟩ s.conn.inp.readers }).Listed t none := by
  have hnode : Function.update (fun v => (s.threads v).hasNode) t (some request) t =
      some request := Function.update_self t _ _
  have hremove := Linked.remove h hnode
  rw [Function.update_idem] at hremove
  exact hremove

theorem Listed.insertReader (h : s.Listed t none) :
    (s.setInp { s.conn.inp with
      readers := insertReader ⟨request, t⟩ s.conn.inp.readers }).Listed t (some request) := by
  have hnode : Function.update (fun v => (s.threads v).hasNode) t none t = none :=
    Function.update_self t _ _
  have hinsert := @Linked.insert _ _ _ _ t request h hnode
  rw [Function.update_idem] at hinsert
  exact hinsert

theorem Listed.leaveReply (h : s.Listed t (some request)) (reply : Option (Buffer β)) :
    (s.leaveReply e t request reply).Queued :=
  (h.removeReader.of_reads (reads_wakeUpNextReader _ e)).leave _

theorem Listed.waitRead {waiter : Waiter} (h : s.Listed t waiter.waitsFor) :
    (s.waitRead t waiter).Queued := by
  rw [System.waitRead]
  split
  · exact Listed.setPc h rfl
  · exact (h.setReading _).setPc rfl

theorem Listed.pollForReply (h : s.Listed t node) :
    (s.setInp (s.conn.inp.pollForReply request).2).Listed t node := by
  obtain ⟨currentReply, replies, heq⟩ := s.conn.inp.pollForReply_snd request
  refine h.congr ?_ rfl
  rw [setInp, heq]

theorem Listed.waitReply (h : s.Listed t (some request)) :
    (s.waitReply e t request).Queued := by
  rw [System.waitReply]
  split
  · exact h.pollForReply.leaveReply _
  · have hpoll : (s.setInp (s.conn.inp.pollForReply request).2).Listed t
        (Waiter.reply request).waitsFor := h.pollForReply
    exact hpoll.waitRead

theorem Listed.startReply (h : s.Listed t none) :
    (s.startReply e t request).Queued :=
  h.insertReader.waitReply

theorem Listed.leaveEvent (h : s.Listed t none) (event : Option (Buffer β)) :
    (s.leaveEvent e t event).Queued :=
  (h.of_reads (reads_wakeUpNextReader s e)).leave _

theorem Listed.getEvent (h : s.Listed t node) :
    (s.setInp s.conn.inp.getEvent.2).Listed t node := by
  refine h.congr ?_ rfl
  rw [setInp, XcbIn.getEvent_snd]

theorem Listed.waitEvent (h : s.Listed t none) : (s.waitEvent e t).Queued := by
  rw [System.waitEvent]
  split
  · exact h.getEvent.leaveEvent _
  · have hget : (s.setInp s.conn.inp.getEvent.2).Listed t Waiter.event.waitsFor :=
      h.getEvent
    exact hget.waitRead

theorem Listed.pollEvent (h : s.Listed t none) : (s.pollEvent e t).Queued := by
  rw [System.pollEvent]
  split
  · exact h.getEvent.leave _
  · have hread := h.getEvent.of_reads (reads_inRead _ e)
    dsimp only
    split
    · exact hread.getEvent.leave _
    · exact hread.leave _

theorem Listed.afterRead {waiter : Waiter} (h : s.Listed t waiter.waitsFor)
    (ret : Bool) : (s.afterRead e t waiter ret).Queued := by
  cases waiter <;> cases ret
  · exact h.leaveReply none
  · exact h.waitReply
  · exact h.leaveEvent none
  · exact h.waitEvent

theorem Listed.finishRead {waiter : Waiter} (h : s.Listed t waiter.waitsFor)
    (failed : Bool) : (s.finishRead e t failed waiter).Queued := by
  have hread := h.of_reads (reads_pollRead s e failed)
  exact Listed.afterRead ((hread.setReading _).idle .idle) _

end reading

/-! ### Writing -/

section writing

variable {e : Env τ β} {request : BitVec 32} {f : Flusher} {sender : Sender}

theorem Listed.takeSocket (h : s.Listed t node) (flags : Flags) :
    (s.takeSocket e flags).Listed t node := by
  refine h.congr ?_ rfl
  change (s.conn.handOver s.handoffs flags).inp.readers = _
  rw [XcbConnection.handOver]
  split <;> rfl

theorem Listed.afterFlush (h : s.Listed t none) (ret : Bool) :
    (s.afterFlush e t f ret).Queued := by
  cases f with
  | flush target => exact h.leave _
  | takeSocket flags =>
    cases ret with
    | true => exact (h.takeSocket flags).leave _
    | false => exact h.leave _
  | waitForReply request =>
    cases ret with
    | true => exact h.startReply
    | false => exact (h.of_reads (reads_wakeUpNextReader s e)).leave _

theorem Listed.afterSend (h : s.Listed t none) (ret : Bool) :
    (s.afterSend e t sender ret).Queued := by
  cases sender with
  | send number last =>
    cases ret with
    | true => exact h.leave _
    | false => exact (h.of_reads (reads_shutdown s)).leave _
  | writev last => exact h.leave _
  | flusher f => exact h.afterFlush ret

theorem Listed.waitWrite (h : s.Listed t none) (vector : List Iovec) :
    (s.waitWrite t sender vector).Queued := by
  rw [System.waitWrite]
  split
  · exact h.setPc rfl
  · exact ((h.setReading _).setOut _).setPc rfl

theorem Listed.outSend (h : s.Listed t none) (ret : Bool) (vector : List Iovec) :
    (s.outSend e t sender ret vector).Queued := by
  rw [System.outSend]
  split
  · exact h.waitWrite vector
  · exact ((h.setOut _).of_reads (reads_wakeUpNextReader _ e)).afterSend ret

theorem Listed.writeVec (h : s.Listed t node) (vector : List Iovec) (w : WriteResult) :
    (s.writeVec vector w).1.Listed t node := by
  cases w <;> exact h.congr rfl rfl

theorem Listed.pollWrite (h : s.Listed t node) (failed : Bool) (vector : List Iovec) :
    (s.pollWrite e failed vector).1.Listed t node := by
  have hread := h.of_reads (reads_pollRead s e failed)
  rw [System.pollWrite]
  split
  · exact hread.writeVec vector _
  · exact hread

theorem Listed.finishWrite (h : s.Listed t none) (failed : Bool)
    (vector : List Iovec) : (s.finishWrite e t failed sender vector).Queued := by
  exact Listed.outSend ((((h.pollWrite failed vector).setOut _).setReading _).idle .idle) _ _

theorem Listed.awaitWritten (h : s.Listed t none) (request : BitVec 64) (n : ℕ) :
    (s.awaitWritten e t f request n).Queued := by
  rw [System.awaitWritten]
  split
  · exact h.setPc rfl
  · exact (h.note _).afterFlush true

theorem Listed.flushTo (h : s.Listed t none) (request : BitVec 64) :
    (s.flushTo e t f request).Queued := by
  rw [System.flushTo]
  split
  · exact (h.note _).afterFlush true
  · split
    · exact Listed.outSend ((h.note _).setOut _) true _
    · exact (h.note _).awaitWritten request _

theorem Listed.writeBlock (h : s.Listed t none) (number : BitVec 64)
    (vector : List (List UInt8)) : (s.writeBlock e t number vector).Queued := by
  rw [System.writeBlock]
  split
  · exact (h.setOut _).leave _
  · exact Listed.outSend (h.setOut _) true _

theorem Listed.sendRequest (h : s.Listed t none) (req : PreparedRequest) :
    (s.sendRequest e t req).Queued := by
  have hnumber : ((s.note (.numbered s.conn.out.writing
      s.conn.out.returnSocket.isSome)).numberRequest e req).Listed t none := by
    refine h.congr ?_ rfl
    change (s.conn.numberRequest req).1.inp.readers = _
    rw [numberRequest_fst]
  exact hnumber.writeBlock _ _

theorem Listed.afterSocket (h : s.Listed t none) (taker : Taker) :
    (s.afterSocket e t taker).Queued := by
  cases taker with
  | send req => exact h.sendRequest req
  | takeSocket flags => exact Listed.flushTo h _

theorem Listed.getSocketBack (h : s.Listed t none) (taker : Taker) :
    (s.getSocketBack e t taker).Queued := by
  rw [System.getSocketBack]
  split
  · exact h.afterSocket taker
  · split
    · exact h.setPc rfl
    · exact ((h.setOut _).note _).setPc rfl

theorem Listed.endCallback (h : s.Listed t node) : s.endCallback.Listed t node := by
  obtain ⟨pending, heq⟩ := s.conn.inp.repliesDone_eq s.conn.out.request
  refine h.congr ?_ rfl
  change (s.conn.inp.repliesDone s.conn.out.request).readers = _
  rw [heq]

theorem Listed.awaitTurn (h : s.Listed t none) (req : PreparedRequest) :
    (s.awaitTurn e t req).Queued := by
  rw [System.awaitTurn]
  split
  · exact h.setPc rfl
  · exact h.getSocketBack _

theorem Listed.writev (h : s.Listed t none) (vector requests : List (List UInt8)) :
    (s.writev e t vector requests).Queued := by
  have hnumber : (s.numberOwner requests).Listed t none := h.congr rfl rfl
  exact Listed.outSend hnumber true _

end writing

/-! ### Steps -/

theorem Listed.start {e : Env τ β} {call : Call PreparedRequest}
    (h : s.Listed t none) : (s.start e t call).Queued := by
  cases call with
  | send req => exact Listed.awaitTurn h req
  | flush => exact Listed.flushTo h _
  | takeSocket flags => exact Listed.getSocketBack h _
  | writev vector requests => exact Listed.writev h vector requests
  | waitForReply request =>
    rw [System.start]
    split
    · exact Listed.startReply h
    · exact Listed.flushTo h _
  | pollForReply request => exact h.pollForReply.leave _
  | discardReply request =>
    obtain ⟨currentReply, replies, pending, heq⟩ :=
      s.conn.inp.discardReply_eq s.conn.out.request request
    have hinp : (s.setInp
        (s.conn.inp.discardReply s.conn.out.request request)).Listed t none := by
      refine h.congr ?_ rfl
      rw [setInp, heq]
    exact hinp.leave _
  | waitForEvent => exact Listed.waitEvent h
  | pollForEvent => exact h.pollEvent

/-- A thread asks for the lock. -/
theorem Queued.enter (h : s.Queued) (hidle : s.threads t = .idle) (call : Call SendCall) :
    (s.enter t call).Queued := by
  have hlisted := h.listed t
  rw [hidle] at hlisted
  cases call with
  | send call =>
    rw [System.enter]
    split
    · exact hlisted.setPc rfl
    · exact h
  | discardReply request =>
    rw [System.enter]
    split
    · exact h
    · exact hlisted.setPc rfl
  | _ => exact hlisted.setPc rfl

theorem Queued.call (h : s.Queued) {call : Call SendCall} (hcall : s.call t call = some u) :
    u.Queued := by
  rw [System.call] at hcall
  split at hcall
  · next hidle =>
    split at hcall
    · split at hcall
      · cases hcall
        cases call <;> exact h
      · cases hcall
        exact h.enter hidle call
    · cases hcall
  · cases hcall

theorem Queued.pollFails (h : s.Queued) (hfails : s.pollFails t = some u) : u.Queued := by
  have hlisted := (h.listed t).of_reads (reads_shutdown s)
  rw [System.pollFails] at hfails
  split at hfails
  · next heq =>
    cases hfails
    rw [heq] at hlisted
    exact hlisted.setPc rfl
  · next heq =>
    cases hfails
    rw [heq] at hlisted
    exact hlisted.setPc rfl
  · cases hfails

variable [Fintype τ]

theorem Queued.run (h : s.Queued) {e : Env τ β} (hrun : s.run t e = some u) : u.Queued := by
  have hlisted := h.listed t
  rw [System.run] at hrun
  split at hrun
  · cases hrun
  · next heq =>
    cases hrun
    rw [heq] at hlisted
    exact (hlisted.idle .idle).start
  · next heq =>
    cases hrun
    rw [heq] at hlisted
    exact (hlisted.idle .idle).awaitTurn _
  · next heq =>
    cases hrun
    rw [heq] at hlisted
    exact (hlisted.idle .idle).getSocketBack _
  · next heq =>
    split at hrun
    · cases hrun
      rw [heq] at hlisted
      exact (hlisted.endCallback.idle .idle).afterSocket _
    · cases hrun
  · next heq =>
    cases hrun
    rw [heq] at hlisted
    exact Listed.outSend (hlisted.idle .idle) true _
  · next heq =>
    split at hrun
    · cases hrun
      rw [heq] at hlisted
      exact Listed.finishWrite hlisted _ _
    · cases hrun
  · next heq =>
    cases hrun
    rw [heq] at hlisted
    exact Listed.awaitWritten (hlisted.idle .idle) _ _
  · next heq =>
    cases hrun
    rw [heq] at hlisted
    exact Listed.afterRead (hlisted.idle .idle) true
  · next heq =>
    cases hrun
    rw [heq] at hlisted
    exact Listed.finishRead hlisted _

theorem Queued.step (h : s.Queued) {a : Action τ β} (hstep : s.step a = some u) : u.Queued := by
  cases a with
  | call t call => exact h.call hstep
  | pollFails t => exact h.pollFails hstep
  | run t e => exact h.run hstep

omit [DecidableEq τ] [Fintype τ] in
theorem queued_init (size : ℕ) (maximum : BitVec 16) : (init size maximum : System τ β).Queued :=
  ⟨.nil, .nil, fun _ => iff_of_false List.not_mem_nil nofun⟩

/-- **The list of readers** is in order, with one node for each thread that has linked one in. -/
theorem queued_of_reach {ok : System τ β → Action τ β → Prop} {size : ℕ} {maximum : BitVec 16}
    (h : Transition.Reach step ok (init size maximum) s) : s.Queued :=
  h.invariant (fun _ _ _ h _ hstep => h.step hstep) (queued_init size maximum)

/-! ### Two threads -/

/-- Nothing happens on the socket. -/
def silent : Env (Fin 2) Unit where
  pollin := false
  pollout := false
  recv := ⟨[], none, false⟩
  writev := .again
  noMemory := fun _ => false
  order := [0, 1]
  complete := mem_range_two

/-- What becomes of a call, when the thread gets the lock at once. -/
def waitAtOnce (s : System (Fin 2) Unit) (t : Fin 2) (request : BitVec 32) : System (Fin 2) Unit :=
  ((s.setPc t (.lock (.waitForReply request))).setPc t .idle).start silent t
    (.waitForReply request)

theorem reach_waitAtOnce {ok : System (Fin 2) Unit → Action (Fin 2) Unit → Prop}
    {s₀ s : System (Fin 2) Unit} {t : Fin 2} {request : BitVec 32}
    (h : Transition.Reach step ok s₀ s) (hidle : s.threads t = .idle)
    (herr : s.conn.hasError = false) (hcall : ok s (.call t (.waitForReply request)))
    (hrun : ∀ u, ok u (.run t silent)) : Transition.Reach step ok s₀ (s.waitAtOnce t request) := by
  have hlock : s.step (.call t (.waitForReply request)) =
      some (s.setPc t (.lock (.waitForReply request))) := by
    simp [step, call, hidle, herr, MayCall, enter]
  have hwait : (s.setPc t (.lock (.waitForReply request))).step (.run t silent) =
      some (s.waitAtOnce t request) := by
    simp [step, run, waitAtOnce]
  exact (h.tail hcall hlock).tail (hrun _) hwait

/-- Two threads wait for the same reply. -/
def waitTwice : System (Fin 2) Unit := ((init 16384 65535).waitAtOnce 0 1).waitAtOnce 1 1

theorem reach_waitTwice :
    Transition.Reach step (fun _ _ => True) (init 16384 65535) waitTwice :=
  reach_waitAtOnce (reach_waitAtOnce (.refl _) rfl rfl trivial fun _ => trivial) rfl rfl trivial
    fun _ => trivial

end System

end Xcb
