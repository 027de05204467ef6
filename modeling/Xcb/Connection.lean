import Xcb.Internal.Serial

/-!
# The connection

The data of `xcbint.h`: what a connection holds between two calls, split as the source splits it
into an input half (`_xcb_in`) and an output half (`_xcb_out`).

## What is parameter

Three things are left abstract because no function of the two halves looks inside them.

* `β`, what a packet carries after the header fields that are read here.
* `τ`, the identity of a condition variable on a waiting thread's stack.
* The `return_socket` callback with its closure: only a number that says which handoff it is from.

The input byte queue is not part of `XcbIn`: this layer works on whole packets.

## Sequence numbers

They are 64-bit counters compared by `XCB_SEQUENCE_COMPARE`, or their low 32 bits compared by
`XCB_SEQUENCE_COMPARE_32`. The first one converts a wrapped difference of unsigned numbers to a
signed one. The second one subtracts two `int`s and tests the sign. Where that overflows C gives the
program no meaning, and a compiler that optimises takes it not to overflow: it compares the two
`int`s. Wherever the meaning is defined, which `Serial.Fits` says, that is the sign of the wrapped
difference too.
-/

namespace Xcb

/-! ### Sequence numbers -/

/-- `XCB_SEQUENCE_COMPARE`: the signed 64-bit number that is compared with `0`. -/
def sequenceCompare (a b : BitVec 64) : ℤ := Serial.dist a b

/-- `XCB_SEQUENCE_COMPARE_32`: the difference of two `int`s that is compared with `0`, as if no
`int` were too small for it. -/
def sequenceCompare32 (a b : BitVec 32) : ℤ := a.toInt - b.toInt

@[simp] theorem sequenceCompare32_self (a : BitVec 32) : sequenceCompare32 a a = 0 := sub_self _

theorem sequenceCompare32_eq_zero_iff (a b : BitVec 32) : sequenceCompare32 a b = 0 ↔ a = b := by
  rw [sequenceCompare32, sub_eq_zero, BitVec.toInt_inj]

/-- The conversion of a 64-bit sequence number to `unsigned int`. -/
def low32 (a : BitVec 64) : BitVec 32 := a.setWidth 32

@[simp] theorem low32_ofNat (n : ℕ) : low32 (BitVec.ofNat 64 n) = BitVec.ofNat 32 n := by
  simp [low32]

/-! ### Requests -/

/-- The `int flags` of a request: `enum xcb_send_request_flags_t`. -/
abbrev Flags := BitVec 32

/-- `XCB_REQUEST_CHECKED` -/
def requestChecked : Flags := 1

/-- `XCB_REQUEST_RAW` -/
def requestRaw : Flags := 2

/-- `XCB_REQUEST_DISCARD_REPLY` -/
def requestDiscardReply : Flags := 4

/-- `flags & mask`, as a condition. -/
def hasFlag (flags mask : Flags) : Bool := flags &&& mask != 0

/-- `enum workarounds` -/
inductive Workaround
  | none
  | glxGetFbConfigsBug
  | externalSocketOwner
  deriving DecidableEq, Repr

/-- `struct pending_reply`: a range of requests whose responses are not routed by default. -/
structure PendingReply where
  firstRequest : BitVec 64
  lastRequest : BitVec 64
  workaround : Workaround
  flags : Flags
  deriving DecidableEq, Repr

/-! ### Packets -/

/-- A packet of the server: the fields of `xcb_generic_reply_t` that decide where it goes, and
the rest. -/
structure Packet (β : Type) where
  responseType : BitVec 8
  sequence : BitVec 16
  body : β
  deriving DecidableEq, Repr

/-- `XCB_ERROR` -/
def xcbError : BitVec 8 := 0

/-- `XCB_REPLY` -/
def xcbReply : BitVec 8 := 1

/-- `XCB_KEYMAP_NOTIFY` -/
def xcbKeymapNotify : BitVec 8 := 11

variable {τ β : Type}

/-- The one packet without a sequence number. -/
def Packet.isKeymapNotify (p : Packet β) : Bool := p.responseType &&& 0x7f == xcbKeymapNotify

def Packet.isError (p : Packet β) : Bool := p.responseType == xcbError

def Packet.isReply (p : Packet β) : Bool := p.responseType == xcbReply

/-- What `read_packet` allocates: the packet, and for everything but replies the 32-bit
`full_sequence` behind it. -/
structure Buffer (β : Type) where
  packet : Packet β
  fullSequence : Option (BitVec 32)
  deriving DecidableEq, Repr

/-! ### The map of replies -/

/-- `_xcb_map`: a list of nodes in insertion order, searched from the head. -/
structure XcbMap (α : Type) where
  nodes : List (BitVec 32 × α)
  deriving DecidableEq, Repr

variable {α : Type}

def XcbMap.new : XcbMap α := ⟨[]⟩

/-- `_xcb_map_put` -/
def XcbMap.put (list : XcbMap α) (key : BitVec 32) (data : α) : XcbMap α :=
  ⟨list.nodes ++ [(key, data)]⟩

/-- `_xcb_map_remove`: unlink the first node with this key. -/
def XcbMap.remove (list : XcbMap α) (key : BitVec 32) : Option α × XcbMap α :=
  match list.nodes.find? (·.1 == key) with
  | some (_, data) => (some data, ⟨list.nodes.eraseP (·.1 == key)⟩)
  | none => (none, list)

/-! ### The two halves -/

/-- `struct reader_list`: a thread that waits for a reply, and its condition variable. -/
structure Reader (τ : Type) where
  request : BitVec 32
  data : τ
  deriving DecidableEq, Repr

/-- `struct _xcb_in`. The tail pointers are implicit: appending is `++`. -/
structure XcbIn (τ β : Type) where
  /-- How many threads are inside `poll` or `select`. -/
  reading : ℕ
  requestExpected : BitVec 64
  requestRead : BitVec 64
  requestCompleted : BitVec 64
  currentReply : List (Buffer β)
  replies : XcbMap (List (Buffer β))
  events : List (Buffer β)
  readers : List (Reader τ)
  pendingReplies : List PendingReply
  deriving DecidableEq, Repr

/-- `_xcb_in_init`, on zeroed memory. -/
def XcbIn.init : XcbIn τ β where
  reading := 0
  requestExpected := 0
  requestRead := 0
  requestCompleted := 0
  currentReply := []
  replies := XcbMap.new
  events := []
  readers := []
  pendingReplies := []

/-- `struct _xcb_out`. `queue` is the whole array; its first `queueLen` bytes are in use. -/
structure XcbOut where
  /-- How many threads are inside `poll` or `select` with something to write. -/
  writing : ℕ
  returnSocket : Option ℕ
  socketMoving : Bool
  queue : List UInt8
  queueLen : ℕ
  request : BitVec 64
  requestWritten : BitVec 64
  deriving DecidableEq, Repr

/-- `_xcb_out_init`, with a queue of `XCB_QUEUE_BUFFER_SIZE = size` bytes. -/
def XcbOut.init (size : ℕ) : XcbOut where
  writing := 0
  returnSocket := none
  socketMoving := false
  queue := List.replicate size 0
  queueLen := 0
  request := 0
  requestWritten := 0

/-- `struct xcb_connection_t`. Of the setup only the length limit is used. -/
structure XcbConnection (τ β : Type) where
  hasError : Bool
  /-- `setup->maximum_request_length`, in words. -/
  setupMaximumRequestLength : BitVec 16
  inp : XcbIn τ β
  out : XcbOut
  deriving DecidableEq, Repr

/-- A connection as `xcb_connect_to_fd` returns it. -/
def XcbConnection.init (size : ℕ) (maximum : BitVec 16) : XcbConnection τ β where
  hasError := false
  setupMaximumRequestLength := maximum
  inp := XcbIn.init
  out := XcbOut.init size

/-- `_xcb_conn_shutdown` -/
def XcbConnection.shutdown (c : XcbConnection τ β) : XcbConnection τ β :=
  { c with hasError := true }

end Xcb
