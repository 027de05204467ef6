import Xcb.Tails
import Mathlib.Algebra.Order.Group.Multiset
import Mathlib.Tactic.Abel

/-!
# Destroying `struct _xcb_in`

`_xcb_in_destroy` frees the lists that are left when a connection is closed. The map of replies is a
list of lists, so freeing it is a loop inside a loop. A node that is freed twice, or read after it
was freed, makes the program `none`.

The buffers in the lists are freed together with their nodes. A buffer that was handed out is not in
a list any more, and belongs to the caller.

## Main definitions

* `XcbIn.keptBy`, `XcbIn.freedBy` — the buffers that calls keep, and those that they free
* `LinkedIn.mapDelete` — `_xcb_map_delete`, with `free_reply_list`
* `LinkedIn.destroy` — `_xcb_in_destroy`

## Main results

* `XcbIn.perm_performAll` — what calls keep they hand out, free, or still hold
* `LinkedIn.destroy_run` — after any calls, everything that is left is freed, once
-/

namespace Xcb

open Linked

variable {A β τ : Type}

/-! ### Where the buffers are -/

/-- The buffers in the lists: replies and errors, and events. -/
def XcbIn.held (c : XcbIn τ β) : List (Buffer β) := c.stored ++ c.events

/-- What a call hands out. -/
def Answer.buffers : Answer β → List (Buffer β)
  | .done => []
  | .event found => found.toList
  | .reply found => found.join.toList
  | .removed replies => replies

/-- What a call puts into a list. -/
def ListCall.kept (c : XcbIn τ β) : ListCall A β → List (Buffer β)
  | .readPacket p readFails _ _ =>
    if readFails then []
    else match route ((c.advance p).matchPending p) p with
      | .discard => []
      | .replyStore | .eventQueue => [(c.advance p).buffer p]
  | .mapPut _ entries _ => contents entries
  | _ => []

/-- What `discard_reply` frees. -/
def XcbIn.discarded (c : XcbIn τ β) (request : BitVec 32) : List (Buffer β) :=
  if sequenceCompare32 request (low32 c.requestRead) < 0 then (c.replies.remove request).1.getD []
  else if sequenceCompare32 request (low32 c.requestRead) = 0 ∧ c.currentReply ≠ [] then
    c.currentReply
  else []

/-- What a call frees: no other function frees a buffer that a list holds. -/
def ListCall.freed (c : XcbIn τ β) : ListCall A β → List (Buffer β)
  | .discardReply _ request _ => c.discarded request
  | _ => []

/-- What calls in a row put into lists. -/
def XcbIn.keptBy (c : XcbIn τ β) : List (ListCall A β) → List (Buffer β)
  | [] => []
  | call :: calls => call.kept c ++ (c.perform call).2.keptBy calls

/-- What calls in a row free. -/
def XcbIn.freedBy (c : XcbIn τ β) : List (ListCall A β) → List (Buffer β)
  | [] => []
  | call :: calls => call.freed c ++ (c.perform call).2.freedBy calls

section perform

variable (c : XcbIn τ β)

theorem XcbIn.perm_readPacket (p : Packet β) :
    ((ListCall.readPacket p false node entry : ListCall A β).kept c ++ c.held).Perm
      (c.readPacket p).1.held := by
  rw [ListCall.kept, if_neg Bool.false_ne_true, XcbIn.held, XcbIn.held, XcbIn.stored_readPacket,
    XcbIn.events_readPacket]
  cases route ((c.advance p).matchPending p) p with
  | discard => simp
  | replyStore =>
    simp only [if_true, reduceCtorEq, if_false, List.append_nil, List.append_assoc]
    exact List.perm_append_comm_assoc _ _ _
  | eventQueue =>
    simp only [if_true, reduceCtorEq, if_false, List.append_nil]
    rw [← List.append_assoc c.stored]
    exact List.perm_append_comm

theorem XcbIn.perm_getEvent : c.held.Perm (c.getEvent.1.toList ++ c.getEvent.2.held) := by
  rw [XcbIn.getEvent_snd, XcbIn.getEvent, XcbIn.held, XcbIn.held]
  cases c.events with
  | nil => exact .refl _
  | cons event events => exact List.perm_middle

theorem XcbIn.perm_put (key : BitVec 32) (entries : List (Buffer β)) :
    (entries ++ c.held).Perm { c with replies := c.replies.put key entries }.held := by
  show (entries ++ (c.replies.nodes.flatMap Prod.snd ++ c.currentReply ++ c.events)).Perm
    ((c.replies.nodes ++ [(key, entries)]).flatMap Prod.snd ++ c.currentReply ++ c.events)
  rw [List.flatMap_append, List.flatMap_singleton, ← List.append_assoc, ← List.append_assoc]
  exact (List.perm_append_comm.append_right _).append_right _

theorem XcbIn.perm_remove (key : BitVec 32) :
    c.held.Perm ((c.replies.remove key).1.getD [] ++
      { c with replies := (c.replies.remove key).2 }.held) := by
  have hperm := (c.replies.perm_remove key).symm.append_right (c.currentReply ++ c.events)
  rw [List.append_assoc] at hperm
  rw [XcbIn.held, XcbIn.held, XcbIn.stored, XcbIn.stored, List.append_assoc, List.append_assoc]
  exact hperm

theorem XcbIn.perm_discardReply (outRequest : BitVec 64) (request : BitVec 32) :
    c.held.Perm (c.discarded request ++ (c.discardReply outRequest request).held) := by
  unfold XcbIn.discardReply XcbIn.discarded
  split
  · -- its replies are filed
    exact c.perm_remove request
  · split
    · -- it is being read
      show (c.replies.nodes.flatMap Prod.snd ++ c.currentReply ++ c.events).Perm
        (c.currentReply ++ (c.replies.nodes.flatMap Prod.snd ++ [] ++ c.events))
      rw [List.append_nil, ← List.append_assoc]
      exact List.perm_append_comm.append_right _
    · exact .refl _

/-- **A call** hands out or frees what it takes from a list, and nothing else. -/
theorem XcbIn.perm_perform (call : ListCall A β) :
    (call.kept c ++ c.held).Perm
      ((c.perform call).1.buffers ++ (call.freed c ++ (c.perform call).2.held)) := by
  cases call with
  | readPacket p readFails node entry =>
    cases readFails with
    | true =>
      show c.held.Perm (c.advance p).held
      rw [XcbIn.held, XcbIn.held, XcbIn.stored_advance, XcbIn.advance_events]
    | false => exact c.perm_readPacket p
  | getEvent => exact c.perm_getEvent
  | pollForReply request node =>
    obtain ⟨currentReply, replies, heq⟩ := c.pollForReply_snd request
    have hevents : (c.pollForReply request).2.events = c.events := by rw [heq]
    have hperm := (c.perm_pollForReply request).symm.append_right c.events
    rw [List.append_assoc] at hperm
    show c.held.Perm ((c.pollForReply request).1.join.toList ++ (c.pollForReply request).2.held)
    rw [XcbIn.held, XcbIn.held, hevents]
    exact hperm
  | discardReply outRequest request pend => exact c.perm_discardReply outRequest request
  | mapPut key entries node => exact c.perm_put key (contents entries)
  | mapRemove key => exact c.perm_remove key
  | insertPendingDiscard index seq pend => exact .refl _
  | expectReply request workaround flags pend => exact .refl _
  | repliesDone outRequest =>
    obtain ⟨pendingReplies, heq⟩ := c.repliesDone_eq outRequest
    show c.held.Perm (c.repliesDone outRequest).held
    rw [heq]
    exact .refl _

end perform

/-- **Calls in a row** hand out, free, or still hold everything that was kept. -/
theorem XcbIn.perm_performAll (c : XcbIn τ β) (calls : List (ListCall A β)) :
    (c.keptBy calls ++ c.held).Perm
      ((c.performAll calls).1.flatMap Answer.buffers ++ (c.freedBy calls ++
        (c.performAll calls).2.held)) := by
  induction calls generalizing c with
  | nil => exact .refl _
  | cons call calls ih =>
    have hcall := Multiset.coe_eq_coe.mpr (c.perm_perform call)
    have hcalls := Multiset.coe_eq_coe.mpr (ih (c.perform call).2)
    rw [XcbIn.keptBy, XcbIn.performAll, XcbIn.freedBy, List.flatMap_cons, ← Multiset.coe_eq_coe]
    simp only [← Multiset.coe_add] at hcall hcalls ⊢
    rw [add_right_comm, hcall, add_assoc, add_assoc, add_comm _ (Multiset.ofList (keptBy _ calls)),
      hcalls]
    abel

namespace LinkedIn

variable [DecidableEq A]

/-- `_xcb_map_delete`, where `do_free` is `free_reply_list`. The result is what was in the lists. -/
def mapDelete : ℕ → Heap A (Buffer β) → Heap A (BitVec 32 × Option A) → Option A →
    Option (List (Buffer β) × Heap A (Buffer β) × Heap A (BitVec 32 × Option A))
  | 0, _, _, _ => none
  | _ + 1, replyNodes, mapNodes, none => some ([], replyNodes, mapNodes)
  | fuel + 1, replyNodes, mapNodes, some cur => do
    let node ← mapNodes cur
    let (freed, replyNodes) ← freeAll fuel replyNodes node.data.2
    let (rest, replyNodes, mapNodes) ← mapDelete fuel replyNodes (release mapNodes cur) node.next
    return (freed ++ rest, replyNodes, mapNodes)

/-- `_xcb_in_destroy`. The result is the buffers that are freed. -/
def destroy (fuel : ℕ) (c : LinkedIn A β) : Option (List (Buffer β) × LinkedIn A β) := do
  let (current, replyNodes) ← freeAll fuel c.replyNodes c.currentReply.head
  let (filed, replyNodes, mapNodes) ← mapDelete fuel replyNodes c.mapNodes c.replies.head
  let (events, eventNodes) ← freeAll fuel c.eventNodes c.events.head
  let (_, pendingNodes) ← freeAll fuel c.pendingNodes c.pendingReplies.head
  return (current ++ filed ++ events,
    { c with
      replyNodes := replyNodes
      mapNodes := mapNodes
      eventNodes := eventNodes
      pendingNodes := pendingNodes
      events := { c.events with head := none }
      pendingReplies := { c.pendingReplies with head := none } })

/-- No node of any type is left. -/
structure Freed (m : LinkedIn A β) : Prop where
  replyNodes : ∀ a, m.replyNodes a = none
  mapNodes : ∀ a, m.mapNodes a = none
  eventNodes : ∀ a, m.eventNodes a = none
  pendingNodes : ∀ a, m.pendingNodes a = none

omit [DecidableEq A] in
/-- A heap without lists is empty. -/
theorem eq_none_of_owns {α : Type} {heap : Heap A α} (h : Owns heap []) (a : A) : heap a = none :=
  h.eq_none_iff.mpr List.not_mem_nil

/-- How far the two loops go. -/
def filedSize (filed : List (FiledReplies A β)) : ℕ :=
  filed.length + (filed.map fun f => f.entries.length).sum

/-- **The map of replies is freed**, and each list in it. -/
theorem mapDelete_meets {replyNodes : Heap A (Buffer β)} {mapNodes : Heap A (BitVec 32 × Option A)}
    {head : Option A} {filed : List (FiledReplies A β)}
    (hreplies : Owns replyNodes (filed.map FiledReplies.list))
    (hmap : Owns mapNodes [(head, filed.map FiledReplies.entry)]) (fuel : ℕ) :
    Meets (filedSize filed < fuel) (mapDelete fuel replyNodes mapNodes head) fun r =>
      r.1 = filed.flatMap (fun f => contents f.entries) ∧ Owns r.2.1 [] ∧ Owns r.2.2 [] := by
  induction filed generalizing replyNodes mapNodes head fuel with
  | nil =>
    obtain ⟨rfl, hempty⟩ := Owns.cons_nil_iff.mp hmap
    cases fuel with
    | zero => exact ⟨fun hlt => absurd hlt (Nat.not_lt_zero _), nofun⟩
    | succ fuel => exact .of_eq rfl ⟨rfl, hreplies, hempty⟩
  | cons f filed ih =>
    obtain ⟨rfl, next, hnode, -, hrest⟩ := hmap.releaseHead
    have hsize : filedSize (f :: filed) = filedSize filed + f.entries.length + 1 := by
      simp only [filedSize, List.length_cons, List.map_cons, List.sum_cons]
      omega
    cases fuel with
    | zero => exact ⟨fun hlt => absurd hlt (Nat.not_lt_zero _), nofun⟩
    | succ fuel =>
      rw [mapDelete]
      refine (Meets.of_eq (P := fun node => node = ⟨(f.key, f.data), next⟩) hnode rfl).bind ?_
      rintro _ rfl
      -- the inner list, and then the others
      refine ((Owns.freeAll hreplies fuel).imp (fun hlt => by omega) fun _ => id).bind ?_
      rintro ⟨freed, replyNodes'⟩ ⟨hfreed, howns⟩
      refine ((ih howns hrest fuel).imp (fun hlt => by omega) fun _ => id).bind ?_
      rintro ⟨others, replyNodes'', mapNodes'⟩ ⟨hothers, hend⟩
      refine .of_eq rfl ⟨?_, hend⟩
      rw [List.flatMap_cons]
      exact congrArg₂ (· ++ ·) hfreed hothers

/-- No loop of `_xcb_in_destroy` goes further than this. -/
def depth (s : Shape A β) : ℕ := s.size + s.events.length

variable {m : LinkedIn A β} {s : Shape A β} {c : XcbIn τ β}

/-- **`_xcb_in_destroy`** on memory that holds these lists. -/
theorem Represents.destroy (h : m.Represents s c) (fuel : ℕ) :
    Meets (depth s < fuel) (m.destroy fuel) fun r => r.1.Perm c.held ∧ r.2.Freed := by
  have hsize : depth s = s.currentReply.length + filedSize s.filed + s.pendingReplies.length +
      s.events.length := by
    rw [depth, Shape.size, filedSize]
    omega
  refine ((Owns.freeAll h.replyNodes.owns fuel).imp (fun hlt => by omega) fun _ => id).bind ?_
  rintro ⟨current, replyNodes⟩ ⟨hcurrent, howns⟩
  refine
    ((mapDelete_meets howns h.mapNodes.owns fuel).imp (fun hlt => by omega) fun _ => id).bind ?_
  rintro ⟨filed, replyNodes', mapNodes⟩ ⟨hfiled, hreplies, hmap⟩
  refine ((Owns.freeAll h.eventNodes.owns fuel).imp (fun hlt => by omega) fun _ => id).bind ?_
  rintro ⟨events, eventNodes⟩ ⟨hevents, hevent⟩
  refine ((Owns.freeAll h.pendingNodes.owns fuel).imp (fun hlt => by omega) fun _ => id).bind ?_
  rintro ⟨pending, pendingNodes⟩ ⟨-, hpending⟩
  refine .of_eq rfl ⟨?_, eq_none_of_owns hreplies, eq_none_of_owns hmap, eq_none_of_owns hevent,
    eq_none_of_owns hpending⟩
  have hfiled' : filed = c.replies.nodes.flatMap Prod.snd := by
    rw [show filed = _ from hfiled, ← h.replies, List.flatMap_map]
    rfl
  show (current ++ filed ++ events).Perm _
  rw [show current = _ from hcurrent, hfiled', show events = _ from hevents, h.currentReply,
    h.events, XcbIn.held, XcbIn.stored]
  exact List.perm_append_comm.append_right _

/-- **Nothing leaks, and nothing is freed twice.** After any calls `_xcb_in_destroy` ends and leaves
no node. The buffers that were kept are those that were handed out, those that were freed when
replies were discarded, and those that are freed now. -/
theorem destroy_run {calls : List (ℕ × ListCall A β)} {answers : List (Answer β)}
    (h : init.run calls = some (answers, m)) :
    ∃ n, ∀ fuel, n < fuel → ∃ freed m', m.destroy fuel = some (freed, m') ∧ m'.Freed ∧
      ((XcbIn.init : XcbIn Empty β).keptBy (calls.map Prod.snd)).Perm
        (answers.flatMap Answer.buffers ++
          ((XcbIn.init : XcbIn Empty β).freedBy (calls.map Prod.snd) ++ freed)) := by
  have hinit : (init : LinkedIn A β).Refines (XcbIn.init : XcbIn Empty β) := ⟨_, represents_init⟩
  obtain ⟨rfl, s, hs⟩ := run_refines hinit h
  refine ⟨depth s, fun fuel hfuel => ?_⟩
  obtain ⟨⟨freed, m'⟩, hdestroy⟩ := (hs.destroy fuel).ends hfuel
  obtain ⟨hfreed, hempty⟩ := (hs.destroy fuel).spec _ hdestroy
  refine ⟨freed, m', hdestroy, hempty, ?_⟩
  have hall := (XcbIn.init : XcbIn Empty β).perm_performAll (calls.map Prod.snd)
  rw [show (XcbIn.init : XcbIn Empty β).held = [] from rfl, List.append_nil] at hall
  exact hall.trans ((hfreed.symm.append_left _).append_left _)

/-- Replies to two requests, the first one filed, and an event; one reply is taken out. -/
def leftCalls : List (ℕ × ListCall ℕ Unit) :=
  [(3, .expectReply 2 .none requestChecked 7),
    (3, .readPacket ⟨xcbReply, 1, ()⟩ false 1 2),
    (3, .readPacket ⟨xcbReply, 1, ()⟩ false 1 3),
    (3, .readPacket ⟨xcbReply, 2, ()⟩ false 1 4),
    (3, .readPacket ⟨2, 2, ()⟩ false 1 2),
    (3, .pollForReply 1 5)]

/-- Two replies, an event and an entry of `pending_replies` are left. -/
theorem destroy_run_left : ∃ (m : LinkedIn ℕ Unit) (fuel : ℕ) (freed : List (Buffer Unit))
    (m' : LinkedIn ℕ Unit), m.destroy fuel = some (freed, m') ∧ m'.Freed ∧ freed.length = 3 := by
  have hanswers : ((init : LinkedIn ℕ Unit).run leftCalls).map Prod.fst =
      some [.done, .done, .done, .done, .done, .reply (some (some ⟨⟨xcbReply, 1, ()⟩, none⟩))] := by
    decide
  obtain ⟨⟨answers, m⟩, hrun, rfl⟩ := Option.map_eq_some_iff.mp hanswers
  obtain ⟨n, hall⟩ := destroy_run hrun
  obtain ⟨freed, m', hdestroy, hempty, hperm⟩ := hall (n + 1) (Nat.lt_succ_self n)
  refine ⟨m, n + 1, freed, m', hdestroy, hempty, ?_⟩
  have hkept : ((XcbIn.init : XcbIn Empty Unit).keptBy (leftCalls.map Prod.snd)).length = 4 := by
    decide
  have hfreed : (XcbIn.init : XcbIn Empty Unit).freedBy (leftCalls.map Prod.snd) = [] := by
    decide
  have hlength := hperm.length_eq
  rw [hkept, hfreed] at hlength
  simp [Answer.buffers] at hlength
  omega

end LinkedIn

end Xcb
