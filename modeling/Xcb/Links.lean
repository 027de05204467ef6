import Xcb.In
import Xcb.Internal.Linked

/-!
# The lists of `xcb_in.c` and `xcb_list.c`, as links in memory

`XcbIn` keeps lists, and appends with `++`. In the source there are links in memory and a pointer to
the last link, and each function moves these by hand. Here the functions are given again, as
programs on memory.

There is one heap for each of the four types of nodes. `malloc` gives any address that is not in
use. The condition variables and the readers are left out.

## Main definitions

* `mapPut`, `mapRemove` — `_xcb_map_put` and `_xcb_map_remove`
* `LinkedIn` — the lists of `struct _xcb_in`, and the memory they are in
* `LinkedIn.perform`, `LinkedIn.run` — one call, and calls in a row
* `XcbIn.perform`, `XcbIn.performAll` — the same calls on lists
-/

namespace Xcb

open Linked

variable {A δ β τ : Type}

/-! ### `xcb_list.c` -/

section map

variable [DecidableEq A]

/-- `_xcb_map_put`. The node is allocated at `cur`. -/
def mapPut (heap : Heap A (BitVec 32 × δ)) (list : Tailed A) (cur : A) (key : BitVec 32)
    (data : δ) :
    Option (Heap A (BitVec 32 × δ) × Tailed A) :=
  append heap list cur (key, data)

/-- `_xcb_map_remove` -/
def mapRemove (fuel : ℕ) (heap : Heap A (BitVec 32 × δ)) (list : Tailed A) (key : BitVec 32) :
    Option (Option δ × Heap A (BitVec 32 × δ) × Tailed A) := do
  let cur ← seek (fun node => node.1 == key) fuel heap list.head .head
  match ← load heap list.head cur with
  | none => return (none, heap, list)
  | some tmp =>
    let (node, heap, list) ← unlink heap list cur tmp
    return (some node.2, heap, list)

end map

/-! ### `struct _xcb_in` -/

/-- The lists of `struct _xcb_in` with the numbers that decide about them, and the nodes of the
lists. The data of the map are heads of reply lists. -/
structure LinkedIn (A β : Type) where
  requestExpected : BitVec 64
  requestRead : BitVec 64
  requestCompleted : BitVec 64
  currentReply : Tailed A
  replies : Tailed A
  events : Tailed A
  pendingReplies : Tailed A
  replyNodes : Heap A (Buffer β)
  mapNodes : Heap A (BitVec 32 × Option A)
  eventNodes : Heap A (Buffer β)
  pendingNodes : Heap A PendingReply

namespace LinkedIn

/-- `_xcb_in_init`, on zeroed memory, with the map of `_xcb_map_new`. -/
def init : LinkedIn A β where
  requestExpected := 0
  requestRead := 0
  requestCompleted := 0
  currentReply := Tailed.empty
  replies := Tailed.empty
  events := Tailed.empty
  pendingReplies := Tailed.empty
  replyNodes := fun _ => none
  mapNodes := fun _ => none
  eventNodes := fun _ => none
  pendingNodes := fun _ => none

variable [DecidableEq A]

/-! ### Calls -/

/-- `_xcb_map_put` on `in.replies` -/
def putReplies (c : LinkedIn A β) (node : A) (key : BitVec 32) (data : Option A) :
    Option (LinkedIn A β) := do
  let (mapNodes, replies) ← mapPut c.mapNodes c.replies node key data
  return { c with mapNodes := mapNodes, replies := replies }

/-- `_xcb_map_remove` on `in.replies`. A null pointer is returned when there is no node, too. -/
def removeReplies (fuel : ℕ) (c : LinkedIn A β) (key : BitVec 32) :
    Option (Option A × LinkedIn A β) := do
  let (data, mapNodes, replies) ← mapRemove fuel c.mapNodes c.replies key
  return (data.join, { c with mapNodes := mapNodes, replies := replies })

/-- A new list of replies is put into the map. -/
def putEntries (c : LinkedIn A β) (key : BitVec 32) (entries : List (A × Buffer β)) (node : A) :
    Option (LinkedIn A β) := do
  let (replyNodes, data) ← build c.replyNodes entries
  { c with replyNodes := replyNodes }.putReplies node key data

/-- The replies of the last request are filed, if there are any. -/
def fileReplies (c : LinkedIn A β) (lastread : BitVec 64) (node : A) : Option (LinkedIn A β) :=
  if c.currentReply.head = none then some c
  else do
    let c ← c.putReplies node (low32 lastread) c.currentReply.head
    return { c with currentReply := Tailed.empty }

/-- `read_packet`, from the new `request_read` to `request_completed`. -/
def advanceRead (c : LinkedIn A β) (read : BitVec 64) (node : A) : Option (LinkedIn A β) :=
  let lastread := c.requestRead
  let c := { c with
    requestRead := read
    requestExpected := if sequenceCompare read c.requestExpected > 0 then read
      else c.requestExpected }
  if read ≠ lastread then do
    let c ← c.fileReplies lastread node
    return { c with requestCompleted := read - 1 }
  else some c

/-- The `while` loop at the head of `pending_replies`. -/
def retirePending (fuel : ℕ) (c : LinkedIn A β) : Option (LinkedIn A β) := do
  let (pendingNodes, pendingReplies) ←
    popWhile (fun pend => pend.retired c.requestCompleted) fuel c.pendingNodes c.pendingReplies
  return { c with pendingNodes := pendingNodes, pendingReplies := pendingReplies }

/-- An error is the last response to its request. -/
def completeError (c : LinkedIn A β) (p : Packet β) : LinkedIn A β :=
  if p.isError then { c with requestCompleted := c.requestRead } else c

/-- `read_packet` up to the retired entries and `request_completed`. -/
def advance (fuel : ℕ) (c : LinkedIn A β) (p : Packet β) (node : A) : Option (LinkedIn A β) :=
  if p.isKeymapNotify then some c
  else do
    let c ← c.advanceRead (widenSequence c.requestRead p.sequence) node
    let c ← c.retirePending fuel
    return c.completeError p

/-- What `pend` points to, when it is not null. -/
def matchPending (c : LinkedIn A β) (p : Packet β) : Option (Option PendingReply) :=
  if p.isError || p.isReply then
    match c.pendingReplies.head with
    | none => some none
    | some pend => do
      let node ← c.pendingNodes pend
      return if node.data.covers c.requestRead then some node.data else none
  else some none

/-- The packet as it is stored. -/
def buffer (c : LinkedIn A β) (p : Packet β) : Buffer β :=
  ⟨p, if p.isReply then none else some (low32 c.requestRead)⟩

/-- The end of `read_packet`. The node for the reply or the event is allocated at `entry`. -/
def storePacket (c : LinkedIn A β) (pend : Option PendingReply) (p : Packet β) (entry : A) :
    Option (LinkedIn A β) :=
  match route pend p with
  | .discard => some c
  | .replyStore => do
    let (replyNodes, currentReply) ← append c.replyNodes c.currentReply entry (c.buffer p)
    return { c with replyNodes := replyNodes, currentReply := currentReply }
  | .eventQueue => do
    let (eventNodes, events) ← append c.eventNodes c.events entry (c.buffer p)
    return { c with eventNodes := eventNodes, events := events }

/-- `read_packet`. When `_xcb_in_read_block` fails, the packet is freed. -/
def readPacket (fuel : ℕ) (c : LinkedIn A β) (p : Packet β) (readFails : Bool) (node entry : A) :
    Option (LinkedIn A β) := do
  let c ← c.advance fuel p node
  let pend ← c.matchPending p
  if readFails then return c
  c.storePacket pend p entry

/-- `get_event` -/
def getEvent (c : LinkedIn A β) : Option (Option (Buffer β) × LinkedIn A β) :=
  match c.events.head with
  | none => some (none, c)
  | some cur => do
    let (ret, eventNodes, events) ← pop c.eventNodes c.events cur
    return (some ret, { c with eventNodes := eventNodes, events := events })

/-- The replies behind the first one are filed again, if there are any. -/
def refileReplies (c : LinkedIn A β) (node : A) (key : BitVec 32) (next : Option A) :
    Option (LinkedIn A β) :=
  if next = none then some c else c.putReplies node key next

/-- `poll_for_reply`, called with an error pointer. It frees the node of the reply it hands back. -/
def pollForReply (fuel : ℕ) (c : LinkedIn A β) (request : BitVec 32) (node : A) :
    Option (Option (Option (Buffer β)) × LinkedIn A β) :=
  if request = 0 then some (some none, c)
  else if sequenceCompare32 request (low32 c.requestRead) < 0 then do
    let (data, c) ← c.removeReplies fuel request
    match data with
    | none => return (some none, c)
    | some head =>
      let reply ← c.replyNodes head
      let c ← c.refileReplies node request reply.next
      return (some (some reply.data), { c with replyNodes := release c.replyNodes head })
  else if sequenceCompare32 request (low32 c.requestRead) = 0 ∧ c.currentReply.head ≠ none then do
    let head ← c.currentReply.head
    let (reply, replyNodes, currentReply) ← pop c.replyNodes c.currentReply head
    return (some (some reply), { c with replyNodes := replyNodes, currentReply := currentReply })
  else if sequenceCompare32 request (low32 c.requestCompleted) = 0 then some (some none, c)
  else some (none, c)

/-- `insert_pending_discard`. The entry is allocated at `pend`. -/
def insertPendingDiscard (c : LinkedIn A β) (prevNext : Place A) (seq : BitVec 64) (pend : A) :
    Option (LinkedIn A β) := do
  let (pendingNodes, pendingReplies) ←
    insertAt c.pendingNodes c.pendingReplies prevNext pend (pendingDiscard seq)
  return { c with pendingNodes := pendingNodes, pendingReplies := pendingReplies }

/-- `pend->flags |= XCB_REQUEST_DISCARD_REPLY` -/
def discardPending (c : LinkedIn A β) (pend : A) : Option (LinkedIn A β) := do
  let pendingNodes ← modify c.pendingNodes pend PendingReply.discard
  return { c with pendingNodes := pendingNodes }

/-- The replies that are filed under a key are removed and freed. -/
def freeReplies (fuel : ℕ) (c : LinkedIn A β) (key : BitVec 32) :
    Option (List (Buffer β) × LinkedIn A β) := do
  let (data, c) ← c.removeReplies fuel key
  let (freed, replyNodes) ← freeAll fuel c.replyNodes data
  return (freed, { c with replyNodes := replyNodes })

/-- Further replies to the request being read are to be discarded: the entry that covers it is
marked, or a new one comes first. -/
def discardFurther (c : LinkedIn A β) (pend : A) : Option (LinkedIn A β) :=
  match c.pendingReplies.head with
  | none => c.insertPendingDiscard .head c.requestRead pend
  | some first => do
    let node ← c.pendingNodes first
    if node.data.covers c.requestRead then c.discardPending first
    else c.insertPendingDiscard .head c.requestRead pend

/-- `discard_reply` for the request being read. -/
def discardCurrent (fuel : ℕ) (c : LinkedIn A β) (pend : A) : Option (LinkedIn A β) := do
  let (_, replyNodes) ← freeAll fuel c.replyNodes c.currentReply.head
  { c with replyNodes := replyNodes, currentReply := Tailed.empty }.discardFurther pend

/-- The walk at the end of `discard_reply`. -/
def markDiscard (fuel : ℕ) (c : LinkedIn A β) (request : BitVec 32) (seq : BitVec 64) (pend : A) :
    Option (LinkedIn A β) := do
  let prevPend ← seek (fun pend => sequenceCompare32 (low32 pend.firstRequest) request > 0 ∨
    sequenceCompare32 (low32 pend.firstRequest) request = 0) fuel c.pendingNodes
    c.pendingReplies.head .head
  match ← load c.pendingNodes c.pendingReplies.head prevPend with
  | none => c.insertPendingDiscard prevPend seq pend
  | some found =>
    let node ← c.pendingNodes found
    if sequenceCompare32 (low32 node.data.firstRequest) request > 0 then
      c.insertPendingDiscard prevPend seq pend
    else c.discardPending found

/-- `discard_reply` -/
def discardReply (fuel : ℕ) (c : LinkedIn A β) (outRequest : BitVec 64) (request : BitVec 32)
    (pend : A) : Option (LinkedIn A β) :=
  if sequenceCompare32 request (low32 c.requestRead) < 0 then do
    let (_, c) ← c.freeReplies fuel request
    return c
  else if sequenceCompare32 request (low32 c.requestRead) = 0 ∧ c.currentReply.head ≠ none then
    c.discardCurrent fuel pend
  else c.markDiscard fuel request (widenRequest outRequest request) pend

/-- `_xcb_in_expect_reply` -/
def expectReply (c : LinkedIn A β) (request : BitVec 64) (workaround : Workaround) (flags : Flags)
    (pend : A) : Option (LinkedIn A β) := do
  let (pendingNodes, pendingReplies) ←
    append c.pendingNodes c.pendingReplies pend ⟨request, request, workaround, flags⟩
  return { c with pendingNodes := pendingNodes, pendingReplies := pendingReplies }

/-- `_xcb_in_replies_done`: the last entry is the one that the tail points into. -/
def repliesDone (c : LinkedIn A β) (outRequest : BitVec 64) : Option (LinkedIn A β) :=
  match c.pendingReplies.tail with
  | .head => some c
  | .next pend => do
    let node ← c.pendingNodes pend
    if node.data.workaround = .externalSocketOwner then
      let pendingNodes ← modify c.pendingNodes pend fun pend =>
        { pend with lastRequest := outRequest, workaround := .none }
      return { c with pendingNodes := pendingNodes }
    else return c

end LinkedIn

/-! ### Sequences of calls -/

/-- A call, with the addresses that `malloc` gives to it. -/
inductive ListCall (A β : Type)
  | readPacket (p : Packet β) (readFails : Bool) (node entry : A)
  | getEvent
  | pollForReply (request : BitVec 32) (node : A)
  | discardReply (outRequest : BitVec 64) (request : BitVec 32) (pend : A)
  /-- At the place behind `index` entries. -/
  | insertPendingDiscard (index : ℕ) (seq : BitVec 64) (pend : A)
  | expectReply (request : BitVec 64) (workaround : Workaround) (flags : Flags) (pend : A)
  | repliesDone (outRequest : BitVec 64)
  | mapPut (key : BitVec 32) (entries : List (A × Buffer β)) (node : A)
  /-- The list of replies is freed. -/
  | mapRemove (key : BitVec 32)

/-- What a call returns. -/
inductive Answer (β : Type)
  | done
  | event (event : Option (Buffer β))
  | reply (reply : Option (Option (Buffer β)))
  | removed (replies : List (Buffer β))
  deriving DecidableEq

/-- A call, in memory. -/
def LinkedIn.perform [DecidableEq A] (fuel : ℕ) (c : LinkedIn A β) :
    ListCall A β → Option (Answer β × LinkedIn A β)
  | .readPacket p readFails node entry => do
    return (.done, ← c.readPacket fuel p readFails node entry)
  | .getEvent => do
    let (event, c) ← c.getEvent
    return (.event event, c)
  | .pollForReply request node => do
    let (reply, c) ← c.pollForReply fuel request node
    return (.reply reply, c)
  | .discardReply outRequest request pend => do
    return (.done, ← c.discardReply fuel outRequest request pend)
  | .insertPendingDiscard index seq pend => do
    let prevNext ← walk c.pendingNodes c.pendingReplies.head index .head
    return (.done, ← c.insertPendingDiscard prevNext seq pend)
  | .expectReply request workaround flags pend => do
    return (.done, ← c.expectReply request workaround flags pend)
  | .repliesDone outRequest => do
    return (.done, ← c.repliesDone outRequest)
  | .mapPut key entries node => do
    return (.done, ← c.putEntries key entries node)
  | .mapRemove key => do
    let (replies, c) ← c.freeReplies fuel key
    return (.removed replies, c)

/-- A call, on lists. -/
def XcbIn.perform (c : XcbIn τ β) : ListCall A β → Answer β × XcbIn τ β
  | .readPacket p readFails _ _ => (.done, if readFails then c.advance p else (c.readPacket p).1)
  | .getEvent => (.event c.getEvent.1, c.getEvent.2)
  | .pollForReply request _ => (.reply (c.pollForReply request).1, (c.pollForReply request).2)
  | .discardReply outRequest request _ => (.done, c.discardReply outRequest request)
  | .insertPendingDiscard index seq _ =>
    (.done, { c with
      pendingReplies :=
        c.pendingReplies.take index ++ pendingDiscard seq :: c.pendingReplies.drop index })
  | .expectReply request workaround flags _ => (.done, c.expectReply request workaround flags)
  | .repliesDone outRequest => (.done, c.repliesDone outRequest)
  | .mapPut key entries _ => (.done, { c with replies := c.replies.put key (contents entries) })
  | .mapRemove key =>
    (.removed ((c.replies.remove key).1.getD []), { c with replies := (c.replies.remove key).2 })

/-- Calls in a row, each with its own fuel. -/
def LinkedIn.run [DecidableEq A] (c : LinkedIn A β) :
    List (ℕ × ListCall A β) → Option (List (Answer β) × LinkedIn A β)
  | [] => some ([], c)
  | (fuel, call) :: calls => do
    let (answer, c) ← c.perform fuel call
    let (answers, c) ← c.run calls
    return (answer :: answers, c)

/-- Calls in a row, on lists. -/
def XcbIn.performAll (c : XcbIn τ β) : List (ListCall A β) → List (Answer β) × XcbIn τ β
  | [] => ([], c)
  | call :: calls =>
    ((c.perform call).1 :: ((c.perform call).2.performAll calls).1,
      ((c.perform call).2.performAll calls).2)

end Xcb
