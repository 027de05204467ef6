import Mathlib.Data.List.Perm.Basic
import Xcb.Connection

/-!
# Reading: `xcb_in.c`

The functions that read packets and hand them out, on whole packets. Each is a function of the
input half; where the source also looks at `c->out`, the value it looks at is an argument.

## Main definitions

* `XcbIn.readPacket` — `read_packet`, split along its blank lines: `advance` is everything up to
  the search for a pending entry, `matchPending` that search, `route` the choice at the end
* `XcbIn.pollForReply` — `poll_for_reply`
* `XcbIn.discardReply` — `discard_reply`
* `XcbIn.expectReply`, `XcbIn.repliesDone` — what the output half says about later packets
-/

namespace Xcb

variable {τ β α : Type}

/-- A condition variable that is signalled: the one of a reader, or `event_cond`. -/
inductive Signal (τ : Type)
  | reader (data : τ)
  | event
  deriving DecidableEq, Repr

/-! ### Sequence numbers of packets -/

/-- The number `read_packet` gives to a packet: the last one read, with its low 16 bits replaced,
moved up by `0x10000` when that went backwards. -/
def widenSequence (lastread : BitVec 64) (sequence : BitVec 16) : BitVec 64 :=
  let read := (lastread &&& 0xffffffffffff0000) ||| sequence.setWidth 64
  if sequenceCompare read lastread < 0 then read + 0x10000 else read

/-- The number a caller's 32-bit request stands for, as `xcb_wait_for_reply` and `discard_reply`
compute it: the last one of this kind that is not above `c->out.request`. -/
def widenRequest (outRequest : BitVec 64) (request : BitVec 32) : BitVec 64 :=
  let widened := (outRequest &&& 0xffffffff00000000) ||| request.setWidth 64
  if outRequest < widened then widened - 0x100000000 else widened

/-! ### `read_packet` -/

/-- The new `request_read`, and what follows from it: the replies of the previous request are
filed, and every request before the new one is complete. -/
def XcbIn.advanceRead (c : XcbIn τ β) (read : BitVec 64) : XcbIn τ β :=
  let lastread := c.requestRead
  { c with
    requestRead := read
    requestExpected := if sequenceCompare read c.requestExpected > 0 then read
      else c.requestExpected
    replies := if read ≠ lastread ∧ c.currentReply ≠ [] then
        c.replies.put (low32 lastread) c.currentReply
      else c.replies
    currentReply := if read ≠ lastread then [] else c.currentReply
    requestCompleted := if read ≠ lastread then read - 1 else c.requestCompleted }

/-- Is this entry only about completed requests? An external owner's range has no end yet. -/
def PendingReply.retired (completed : BitVec 64) (pend : PendingReply) : Bool :=
  pend.workaround != .externalSocketOwner && sequenceCompare pend.lastRequest completed ≤ 0

/-- The `while` loop at the head of `pending_replies`. -/
def XcbIn.retirePending (c : XcbIn τ β) : XcbIn τ β :=
  { c with pendingReplies := c.pendingReplies.dropWhile (·.retired c.requestCompleted) }

/-- An error is the last response to its request. -/
def XcbIn.completeError (c : XcbIn τ β) (p : Packet β) : XcbIn τ β :=
  if p.isError then { c with requestCompleted := c.requestRead } else c

/-- `read_packet` up to the retired entries and `request_completed`. -/
def XcbIn.advance (c : XcbIn τ β) (p : Packet β) : XcbIn τ β :=
  if p.isKeymapNotify then c
  else ((c.advanceRead (widenSequence c.requestRead p.sequence)).retirePending).completeError p

/-- Does this entry cover the request being read? -/
def PendingReply.covers (read : BitVec 64) (pend : PendingReply) : Bool :=
  sequenceCompare pend.firstRequest read ≤ 0 &&
    (pend.workaround == .externalSocketOwner || sequenceCompare read pend.lastRequest ≤ 0)

/-- `pend`: only the head of the list is looked at, and only for errors and replies. -/
def XcbIn.matchPending (c : XcbIn τ β) (p : Packet β) : Option PendingReply :=
  if p.isError || p.isReply then c.pendingReplies.head?.filter (·.covers c.requestRead) else none

/-- Where a packet ends. -/
inductive Route
  | discard
  | replyStore
  | eventQueue
  deriving DecidableEq, Repr

/-- The three ways out of `read_packet`. -/
def route (pend : Option PendingReply) (p : Packet β) : Route :=
  if pend.any (fun pend => hasFlag pend.flags requestDiscardReply) then .discard
  else if p.isReply || (p.isError && pend.any (fun pend => hasFlag pend.flags requestChecked)) then
    .replyStore
  else .eventQueue

/-- The loop over `c->in.readers` after a reply has been stored: it stops at the first reader that
waits for exactly this request. -/
def signalReader (read : BitVec 64) : List (Reader τ) → Option τ
  | [] => none
  | reader :: next =>
    if sequenceCompare32 reader.request (low32 read) ≤ 0 then
      if sequenceCompare32 reader.request (low32 read) = 0 then some reader.data
      else signalReader read next
    else none

/-- The packet as it is stored. -/
def XcbIn.buffer (c : XcbIn τ β) (p : Packet β) : Buffer β :=
  ⟨p, if p.isReply then none else some (low32 c.requestRead)⟩

/-- `read_packet`, on a packet that is there completely, with the condition variable it signals. -/
def XcbIn.readPacket (c : XcbIn τ β) (p : Packet β) : XcbIn τ β × Option (Signal τ) :=
  let c := c.advance p
  match route (c.matchPending p) p with
  | .discard => (c, none)
  | .replyStore =>
    ({ c with currentReply := c.currentReply ++ [c.buffer p] },
      (signalReader c.requestRead c.readers).map .reader)
  | .eventQueue => ({ c with events := c.events ++ [c.buffer p] }, some .event)

/-! What `read_packet` leaves alone once it knows the number of the packet. -/

section readPacket

variable (c : XcbIn τ β) (p : Packet β)

/-- The input half after `read_packet`, field by field. -/
theorem XcbIn.readPacket_fst : (c.readPacket p).1 =
    { c.advance p with
      currentReply := if route ((c.advance p).matchPending p) p = .replyStore then
          (c.advance p).currentReply ++ [(c.advance p).buffer p]
        else (c.advance p).currentReply
      events := if route ((c.advance p).matchPending p) p = .eventQueue then
          (c.advance p).events ++ [(c.advance p).buffer p]
        else (c.advance p).events } := by
  simp only [XcbIn.readPacket]
  cases route ((c.advance p).matchPending p) p <;> rfl

@[simp] theorem XcbIn.advance_reading : (c.advance p).reading = c.reading := by
  unfold XcbIn.advance XcbIn.completeError
  split
  · rfl
  · split <;> rfl

@[simp] theorem XcbIn.advance_events : (c.advance p).events = c.events := by
  unfold XcbIn.advance XcbIn.completeError
  split
  · rfl
  · split <;> rfl

@[simp] theorem XcbIn.advance_readers : (c.advance p).readers = c.readers := by
  unfold XcbIn.advance XcbIn.completeError
  split
  · rfl
  · split <;> rfl

theorem XcbIn.advance_of_keymapNotify (h : p.isKeymapNotify = true) : c.advance p = c := by
  simp [XcbIn.advance, h]

/-- Everything about the number of the packet, and the entries it retires. -/
theorem XcbIn.advance_of_not_keymapNotify (h : p.isKeymapNotify = false) :
    c.advance p =
      { c.advanceRead (widenSequence c.requestRead p.sequence) with
        requestCompleted := if p.isError then widenSequence c.requestRead p.sequence
          else (c.advanceRead (widenSequence c.requestRead p.sequence)).requestCompleted
        pendingReplies := c.pendingReplies.dropWhile (·.retired
          (c.advanceRead (widenSequence c.requestRead p.sequence)).requestCompleted) } := by
  simp only [XcbIn.advance, h, XcbIn.completeError]
  cases p.isError <;> rfl

theorem XcbIn.advance_pendingReplies (h : p.isKeymapNotify = false) :
    (c.advance p).pendingReplies = c.pendingReplies.dropWhile fun pend =>
      pend.retired (c.advanceRead (widenSequence c.requestRead p.sequence)).requestCompleted := by
  rw [XcbIn.advance_of_not_keymapNotify c p h]

theorem XcbIn.advance_requestRead (h : p.isKeymapNotify = false) :
    (c.advance p).requestRead = widenSequence c.requestRead p.sequence := by
  rw [XcbIn.advance_of_not_keymapNotify c p h]
  rfl

end readPacket

/-! ### Handing packets out -/

/-- `get_event` -/
def XcbIn.getEvent (c : XcbIn τ β) : Option (Buffer β) × XcbIn τ β :=
  match c.events with
  | [] => (none, c)
  | event :: next => (some event, { c with events := next })

/-- `poll_for_reply`, called with an error pointer. The result is `none` for the return value `0`,
and for `1` the reply or error handed back, if any. -/
def XcbIn.pollForReply (c : XcbIn τ β) (request : BitVec 32) :
    Option (Option (Buffer β)) × XcbIn τ β :=
  if request = 0 then (some none, c)
  else if sequenceCompare32 request (low32 c.requestRead) < 0 then
    match c.replies.remove request with
    | (some (head :: next), replies) =>
      (some (some head),
        { c with replies := if next = [] then replies else replies.put request next })
    | (_, replies) => (some none, { c with replies := replies })
  else if sequenceCompare32 request (low32 c.requestRead) = 0 ∧ c.currentReply ≠ [] then
    (some c.currentReply.head?, { c with currentReply := c.currentReply.tail })
  else if sequenceCompare32 request (low32 c.requestCompleted) = 0 then (some none, c)
  else (none, c)

theorem XcbIn.getEvent_snd (c : XcbIn τ β) :
    c.getEvent.2 = { c with events := c.events.tail } := by
  cases c with
  | mk _ _ _ _ _ _ events _ _ => cases events <;> rfl

/-- Collecting a reply touches the two places where replies are stored, and nothing else. -/
theorem XcbIn.pollForReply_snd (c : XcbIn τ β) (request : BitVec 32) :
    ∃ currentReply replies,
      (c.pollForReply request).2 =
        { c with currentReply := currentReply, replies := replies } := by
  unfold XcbIn.pollForReply
  split
  · exact ⟨c.currentReply, c.replies, rfl⟩
  · split
    · split
      · exact ⟨c.currentReply, _, rfl⟩
      · exact ⟨c.currentReply, _, rfl⟩
    · split
      · exact ⟨c.currentReply.tail, c.replies, rfl⟩
      · split
        · exact ⟨c.currentReply, c.replies, rfl⟩
        · exact ⟨c.currentReply, c.replies, rfl⟩

/-! ### What is stored -/

/-- The replies and errors that wait to be collected. -/
def XcbIn.stored (c : XcbIn τ β) : List (Buffer β) :=
  c.replies.nodes.flatMap (·.2) ++ c.currentReply

/-- Filing the replies of the last request does not lose any. -/
theorem XcbIn.stored_advance (c : XcbIn τ β) (p : Packet β) : (c.advance p).stored = c.stored := by
  cases hkey : p.isKeymapNotify with
  | true => rw [XcbIn.advance_of_keymapNotify c p hkey]
  | false =>
    rw [XcbIn.advance_of_not_keymapNotify c p hkey]
    simp only [XcbIn.stored, XcbIn.advanceRead]
    by_cases hsame : widenSequence c.requestRead p.sequence = c.requestRead
    · simp [hsame]
    · by_cases hempty : c.currentReply = []
      · simp [hempty]
      · simp [hsame, hempty, XcbMap.put]

/-- A packet is stored behind what is there, or not at all. -/
theorem XcbIn.stored_readPacket (c : XcbIn τ β) (p : Packet β) :
    (c.readPacket p).1.stored = c.stored ++
      if route ((c.advance p).matchPending p) p = .replyStore then [(c.advance p).buffer p]
      else [] := by
  rw [← XcbIn.stored_advance c p, XcbIn.readPacket_fst]
  split <;> simp [XcbIn.stored]

theorem XcbIn.events_readPacket (c : XcbIn τ β) (p : Packet β) :
    (c.readPacket p).1.events = c.events ++
      if route ((c.advance p).matchPending p) p = .eventQueue then [(c.advance p).buffer p]
      else [] := by
  rw [XcbIn.readPacket_fst]
  by_cases hroute : route ((c.advance p).matchPending p) p = .eventQueue <;> simp [hroute]

section remove

variable {key k : BitVec 32} {data : α} {nodes : List (BitVec 32 × α)}

theorem XcbMap.remove_cons_of_eq : (XcbMap.mk ((key, data) :: nodes)).remove key =
    (some data, ⟨nodes⟩) := by
  simp [XcbMap.remove]

theorem XcbMap.remove_cons_of_ne (h : k ≠ key) : (XcbMap.mk ((k, data) :: nodes)).remove key =
    (((XcbMap.mk nodes).remove key).1, ⟨(k, data) :: ((XcbMap.mk nodes).remove key).2.nodes⟩) := by
  have hkey : (k == key) = false := beq_false_of_ne h
  simp only [XcbMap.remove, List.find?_cons, List.eraseP_cons, hkey, cond_false]
  cases nodes.find? (·.1 == key) <;> rfl

end remove

/-- What is removed is the first node with the key. -/
theorem XcbMap.remove_cases (list : XcbMap α) (key : BitVec 32) :
    (∃ data before after, list.nodes = before ++ (key, data) :: after ∧
        list.remove key = (some data, ⟨before ++ after⟩)) ∨
      (∀ node ∈ list.nodes, node.1 ≠ key) ∧ list.remove key = (none, list) := by
  obtain ⟨nodes⟩ := list
  induction nodes with
  | nil => exact .inr ⟨fun node h => absurd h List.not_mem_nil, rfl⟩
  | cons node nodes ih =>
    obtain ⟨k, data⟩ := node
    by_cases hkey : k = key
    · subst hkey
      exact .inl ⟨data, [], nodes, rfl, XcbMap.remove_cons_of_eq⟩
    · rw [XcbMap.remove_cons_of_ne hkey]
      rcases ih with ⟨found, before, after, hnodes, hremove⟩ | ⟨hnone, hremove⟩
      · rw [hremove]
        change nodes = _ at hnodes
        exact .inl ⟨found, (k, data) :: before, after, by rw [hnodes]; rfl, rfl⟩
      · rw [hremove]
        refine .inr ⟨?_, rfl⟩
        intro node hnode
        rcases List.mem_cons.mp hnode with rfl | hnode
        · exact hkey
        · exact hnone node hnode

theorem XcbMap.perm_remove (list : XcbMap (List α)) (key : BitVec 32) :
    ((list.remove key).1.getD [] ++ (list.remove key).2.nodes.flatMap (·.2)).Perm
      (list.nodes.flatMap (·.2)) := by
  rcases list.remove_cases key with ⟨data, before, after, hnodes, hremove⟩ | ⟨-, hremove⟩
  · rw [hremove, hnodes]
    simp only [Option.getD_some, List.flatMap_append, List.flatMap_cons]
    rw [← List.append_assoc, ← List.append_assoc]
    exact List.perm_append_comm.append_right _
  · rw [hremove]
    exact .refl _

/-- **Collecting a reply** takes out the one that is returned. -/
theorem XcbIn.perm_pollForReply (c : XcbIn τ β) (request : BitVec 32) :
    ((c.pollForReply request).1.join.toList ++
      (c.pollForReply request).2.stored).Perm c.stored := by
  unfold XcbIn.pollForReply
  split
  · exact .refl _
  · split
    · have hperm := (c.replies.perm_remove request).append_right c.currentReply
      split
      · next head next replies hremove =>
        rw [hremove, Option.getD_some] at hperm
        refine .trans ?_ hperm
        by_cases hnext : next = []
        · simp [XcbIn.stored, hnext]
        · simp only [XcbIn.stored, if_neg hnext, XcbMap.put, List.flatMap_append,
            List.flatMap_singleton]
          exact (List.perm_append_comm.append_right c.currentReply).cons head
      · next found replies hnone hremove =>
        refine .trans ?_ hperm
        rw [hremove]
        cases found with
        | none => exact .refl _
        | some data =>
          cases data with
          | nil => exact .refl _
          | cons head next => exact absurd rfl (hnone head next)
    · split
      · next hcurrent =>
        obtain ⟨head, tail, hcons⟩ := List.exists_cons_of_ne_nil hcurrent.2
        rw [XcbIn.stored, XcbIn.stored, hcons]
        change (head :: (c.replies.nodes.flatMap (·.2) ++ tail)).Perm _
        exact List.perm_middle.symm
      · split <;> exact .refl _

/-! ### Discarding -/

/-- What `insert_pending_discard` links in. -/
def pendingDiscard (seq : BitVec 64) : PendingReply := ⟨seq, seq, .none, requestDiscardReply⟩

/-- `pend->flags |= XCB_REQUEST_DISCARD_REPLY` -/
def PendingReply.discard (pend : PendingReply) : PendingReply :=
  { pend with flags := pend.flags ||| requestDiscardReply }

/-- The walk at the end of `discard_reply`: mark the entry of `request`, or link in a new one
before the first later entry. -/
def markDiscard (request : BitVec 32) (seq : BitVec 64) : List PendingReply → List PendingReply
  | [] => [pendingDiscard seq]
  | pend :: next =>
    if sequenceCompare32 (low32 pend.firstRequest) request > 0 then
      pendingDiscard seq :: pend :: next
    else if sequenceCompare32 (low32 pend.firstRequest) request = 0 then pend.discard :: next
    else pend :: markDiscard request seq next

/-- `discard_reply` -/
def XcbIn.discardReply (c : XcbIn τ β) (outRequest : BitVec 64) (request : BitVec 32) :
    XcbIn τ β :=
  if sequenceCompare32 request (low32 c.requestRead) < 0 then
    { c with replies := (c.replies.remove request).2 }
  else if sequenceCompare32 request (low32 c.requestRead) = 0 ∧ c.currentReply ≠ [] then
    { c with
      currentReply := []
      pendingReplies := match c.pendingReplies with
        | pend :: next =>
          if pend.covers c.requestRead then pend.discard :: next
          else pendingDiscard c.requestRead :: pend :: next
        | [] => [pendingDiscard c.requestRead] }
  else
    { c with
      pendingReplies := markDiscard request (widenRequest outRequest request) c.pendingReplies }

theorem XcbIn.discardReply_eq (c : XcbIn τ β) (outRequest : BitVec 64) (request : BitVec 32) :
    ∃ currentReply replies pendingReplies,
      c.discardReply outRequest request =
        { c with
          currentReply := currentReply, replies := replies, pendingReplies := pendingReplies } := by
  unfold XcbIn.discardReply
  split
  · exact ⟨c.currentReply, _, c.pendingReplies, rfl⟩
  · split
    · exact ⟨[], c.replies, _, rfl⟩
    · exact ⟨c.currentReply, c.replies, _, rfl⟩

/-! ### Waiting readers -/

/-- The first walk of `xcb_wait_for_reply`: behind every reader of a request that is not later. -/
def insertReader (reader : Reader τ) : List (Reader τ) → List (Reader τ)
  | [] => [reader]
  | r :: next =>
    if sequenceCompare32 r.request reader.request ≤ 0 then r :: insertReader reader next
    else reader :: r :: next

/-- The second walk: it gives up at the first reader of a later request. -/
def removeReader [DecidableEq τ] (reader : Reader τ) : List (Reader τ) → List (Reader τ)
  | [] => []
  | r :: next =>
    if sequenceCompare32 r.request reader.request ≤ 0 then
      if r.data = reader.data then next else r :: removeReader reader next
    else r :: next

/-- `_xcb_in_wake_up_next_reader` -/
def XcbIn.wakeUpNextReader (c : XcbIn τ β) : Signal τ :=
  match c.readers with
  | reader :: _ => .reader reader.data
  | [] => .event

/-! ### Pending entries -/

/-- `_xcb_in_expect_reply` -/
def XcbIn.expectReply (c : XcbIn τ β) (request : BitVec 64) (workaround : Workaround)
    (flags : Flags) : XcbIn τ β :=
  { c with pendingReplies := c.pendingReplies ++ [⟨request, request, workaround, flags⟩] }

/-- `_xcb_in_replies_done`: an external owner's range at the end of the list is closed. -/
def XcbIn.repliesDone (c : XcbIn τ β) (outRequest : BitVec 64) : XcbIn τ β :=
  match c.pendingReplies.getLast? with
  | some pend =>
    if pend.workaround = .externalSocketOwner then
      { c with
        pendingReplies := c.pendingReplies.dropLast ++
          [{ pend with lastRequest := outRequest, workaround := .none }] }
    else c
  | none => c

theorem XcbIn.repliesDone_eq (c : XcbIn τ β) (outRequest : BitVec 64) :
    ∃ pendingReplies, c.repliesDone outRequest = { c with pendingReplies := pendingReplies } := by
  unfold XcbIn.repliesDone
  split
  · split
    · exact ⟨_, rfl⟩
    · exact ⟨c.pendingReplies, rfl⟩
  · exact ⟨c.pendingReplies, rfl⟩

end Xcb
