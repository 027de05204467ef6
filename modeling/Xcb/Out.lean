import Xcb.In

/-!
# Writing: `xcb_out.c` and `write_vec`

How a request gets its header, its number and its place in the output stream. `_xcb_out_send` and
`_xcb_conn_wait` give up the lock while they wait, so they are not functions of a connection; what
they do between two waits is.

## Scatter lists

An `iovec` is a pointer and a length. The pointer is into memory of the caller, whose bytes never
change, or into `c->out.queue`, whose bytes do: `Iovec.bytes` reads them at the moment of the call.

Words are stored least significant byte first, which is what a little-endian machine sends and
tells the server in its setup request.

## Main definitions

* `SendCall`, `SendCall.prepare` — `xcb_send_request` before it takes the lock
* `XcbConnection.numberRequest` — from `++c->out.request` to the entries of `pending_replies`
* `PreparedRequest.vector` — the vector with the prefix words in front
* `XcbOut.writeBlock` — `write_block`, up to the call of `_xcb_out_send`
* `writeVec` — the loop of `write_vec` after `writev` has returned
-/

namespace Xcb

variable {τ β : Type}

/-! ### Words in memory -/

/-- A `uint16_t` in memory. -/
def bytes16 (a : BitVec 16) : List UInt8 :=
  [UInt8.ofNat a.toNat, UInt8.ofNat (a.toNat / 256)]

/-- A `uint32_t` in memory. -/
def bytes32 (a : BitVec 32) : List UInt8 :=
  [UInt8.ofNat a.toNat, UInt8.ofNat (a.toNat / 2 ^ 8), UInt8.ofNat (a.toNat / 2 ^ 16),
    UInt8.ofNat (a.toNat / 2 ^ 24)]

/-- The number of a little-endian word. -/
def ofBytes : List UInt8 → ℕ
  | [] => 0
  | b :: bs => b.toNat + 256 * ofBytes bs

/-! ### Scatter lists -/

/-- Where an `iov_base` points to. -/
inductive Base
  | queue
  | memory (bytes : List UInt8)
  deriving DecidableEq, Repr

/-- `struct iovec`: `iov_base` is `offset` bytes after `base`. -/
structure Iovec where
  base : Base
  offset : ℤ
  len : ℕ
  deriving DecidableEq, Repr

/-- The bytes an `iovec` stands for, while `c->out.queue` holds `queue`. -/
def Iovec.bytes (queue : List UInt8) (v : Iovec) : List UInt8 :=
  let mem := match v.base with
    | .queue => queue
    | .memory bytes => bytes
  (mem.drop v.offset.toNat).take v.len

/-- All bytes of a vector. -/
def gather (queue : List UInt8) (vector : List Iovec) : List UInt8 :=
  vector.flatMap (Iovec.bytes queue)

/-- The whole of a part of the caller's memory. -/
def Iovec.ofMemory (bytes : List UInt8) : Iovec := ⟨.memory bytes, 0, bytes.length⟩

/-- The conversion of a `size_t` to `int`. -/
def toCInt (n : ℕ) : ℤ := (BitVec.ofNat 32 n).toInt

/-- `int` subtraction. Overflow wraps. -/
def subCInt (a b : ℤ) : ℤ := (BitVec.ofInt 32 (a - b)).toInt

/-- `iov_len -= cur` and `iov_base += cur`, for an `int cur`. -/
def Iovec.advance (v : Iovec) (cur : ℤ) : Iovec :=
  { v with offset := v.offset + cur, len := (((v.len : ℤ) - cur) % 2 ^ 64).toNat }

/-- The loop of `write_vec` over the vector, `n` bytes of which have been written: what is left
of the vector, and of `n`. -/
def writeVec : List Iovec → ℤ → List Iovec × ℤ
  | [], n => ([], n)
  | v :: vector, n =>
    let cur := if toCInt v.len > n then n else toCInt v.len
    if (v.advance cur).len ≠ 0 then (v.advance cur :: vector, subCInt n cur)
    else writeVec vector (subCInt n cur)

/-! ### The output queue -/

/-- `memcpy` to `c->out.queue + c->out.queue_len`. -/
def XcbOut.append (o : XcbOut) (bytes : List UInt8) : XcbOut :=
  { o with
    queue := o.queue.take o.queueLen ++ bytes ++ o.queue.drop (o.queueLen + bytes.length)
    queueLen := o.queueLen + bytes.length }

/-- `write_block`: parts are copied while the next one fits. What does not fit is left for
`_xcb_out_send`, with the queue in front of it. -/
def XcbOut.writeBlock (o : XcbOut) : List (List UInt8) → XcbOut × List Iovec
  | [] => (o, [])
  | part :: vector =>
    if o.queueLen + part.length ≤ o.queue.length then (o.append part).writeBlock vector
    else ({ o with queueLen := 0 },
      ⟨.queue, 0, o.queueLen⟩ :: (part :: vector).map Iovec.ofMemory)

/-- The vector `_xcb_out_flush_to` sends. -/
def XcbOut.takeQueue (o : XcbOut) : XcbOut × List Iovec :=
  ({ o with queueLen := 0 }, [⟨.queue, 0, o.queueLen⟩])

/-! ### `xcb_send_request`, before the lock -/

/-- A part of the caller's vector: bytes, or a null pointer that asks for padding. -/
inductive Part
  | bytes (bytes : List UInt8)
  | null (len : ℕ)
  deriving DecidableEq, Repr

/-- The part with `pad` for a null pointer. -/
def Part.memory : Part → List UInt8
  | .bytes b => b
  | .null len => List.replicate len 0

def Part.len (part : Part) : ℕ := part.memory.length

/-- `xcb_query_extension_reply_t` -/
structure QueryExtensionReply where
  present : Bool
  majorOpcode : UInt8
  deriving DecidableEq, Repr

/-- An extension of a request, with what `xcb_get_extension_data` returns for it. -/
structure Extension where
  name : String
  reply : Option QueryExtensionReply
  deriving DecidableEq, Repr

/-- The arguments of `xcb_send_request`, and what the lookups it makes before taking the lock
return. The last four fields are what it asserts about the vector. -/
structure SendCall where
  flags : Flags
  vector : List Part
  ext : Option Extension
  opcode : UInt8
  isvoid : Bool
  /-- What `xcb_get_maximum_request_length` returns, in words. -/
  maximumRequestLength : BitVec 32
  count_pos : vector ≠ []
  header_le : hasFlag flags requestRaw = false → ∀ part ∈ vector.head?, 4 ≤ part.len
  pad_le : hasFlag flags requestRaw = false → ∀ len, .null len ∈ vector → len ≤ 3
  aligned : hasFlag flags requestRaw = false → 4 ∣ (vector.map Part.len).sum

/-! One word can be sent. -/

namespace SendCall

theorem count_pos_word : [Part.bytes [0, 0, 0, 0]] ≠ [] := List.cons_ne_nil _ _

theorem header_le_word (flags : Flags) : hasFlag flags requestRaw = false →
    ∀ part ∈ [Part.bytes [0, 0, 0, 0]].head?, 4 ≤ part.len := by
  simp [Part.len, Part.memory]

theorem pad_le_word (flags : Flags) : hasFlag flags requestRaw = false →
    ∀ len, Part.null len ∈ [Part.bytes [0, 0, 0, 0]] → len ≤ 3 := by
  simp

theorem aligned_word (flags : Flags) : hasFlag flags requestRaw = false →
    4 ∣ ([Part.bytes [0, 0, 0, 0]].map Part.len).sum := by
  simp [Part.len, Part.memory]

end SendCall

/-- A request that is ready to be numbered. `bigLength` is `prefix[2]`, the length word of a
request that needs BIG-REQUESTS, or `0`; such a request has a first word to put before it. -/
structure PreparedRequest where
  isvoid : Bool
  flags : Flags
  workaround : Workaround
  bigLength : BitVec 32
  parts : List (List UInt8)
  header_le : bigLength ≠ 0 → 4 ≤ (parts.headD []).length

/-- The opcode bytes: `minor` only for an extension. -/
def setOpcode (major : UInt8) (minor : Option UInt8) (bytes : List UInt8) : List UInt8 :=
  match minor with
  | some minor => (bytes.set 0 major).set 1 minor
  | none => bytes.set 0 major

/-- `((uint16_t *) vector[0].iov_base)[1] = shortlen` -/
def setLength (shortlen : BitVec 16) (bytes : List UInt8) : List UInt8 :=
  bytes.take 2 ++ bytes16 shortlen ++ bytes.drop 4

/-- Write opcode and length into the first part. -/
def setHeader (major : UInt8) (minor : Option UInt8) (shortlen : BitVec 16) :
    List (List UInt8) → List (List UInt8)
  | [] => []
  | first :: rest => setLength shortlen (setOpcode major minor first) :: rest

/-- The request of an extension whose reply packet has the wrong length: `GetFBConfigs`, as its
own request or as a vendor-private one. -/
def glxWorkaround (call : SendCall) (parts : List (List UInt8)) : Workaround :=
  match call.ext with
  | some ext =>
    if !call.isvoid && ext.name == "GLX" &&
        (call.opcode == 17 && ofBytes (((parts.headD []).drop 4).take 4) == 0x10004 ||
          call.opcode == 21) then
      .glxGetFbConfigsBug
    else .none
  | none => .none

/-- The major opcode, and the minor one for an extension; `none` when the extension is missing. -/
def SendCall.opcodes (call : SendCall) : Option (UInt8 × Option UInt8) :=
  match call.ext with
  | none => some (call.opcode, none)
  | some ext =>
    match ext.reply with
    | some reply => if reply.present then some (reply.majorOpcode, some call.opcode) else none
    | none => none

/-- `longlen`: the length of the request in words. -/
def SendCall.longlen (call : SendCall) : ℕ := (call.vector.map Part.len).sum / 4

/-- `shortlen` and `prefix[2]`; `none` when the server cannot take the request. -/
def SendCall.lengths (call : SendCall) (setupMaximum : BitVec 16) :
    Option (BitVec 16 × BitVec 32) :=
  if call.longlen ≤ setupMaximum.toNat then
    let shortlen := BitVec.ofNat 16 call.longlen
    some (shortlen, if shortlen = 0 then 1 else 0)
  else if call.longlen > call.maximumRequestLength.toNat then none
  else some (0, BitVec.ofNat 32 (call.longlen + 1))

theorem Part.length_memory (part : Part) : part.memory.length = part.len := rfl

theorem length_setOpcode (major : UInt8) (minor : Option UInt8) (bytes : List UInt8) :
    (setOpcode major minor bytes).length = bytes.length := by
  cases minor <;> simp [setOpcode]

theorem length_setLength {shortlen : BitVec 16} {bytes : List UInt8} (h : 4 ≤ bytes.length) :
    (setLength shortlen bytes).length = bytes.length := by
  simp [setLength, bytes16]
  omega

theorem header_le_setHeader {call : SendCall} (hraw : hasFlag call.flags requestRaw = false)
    (major : UInt8) (minor : Option UInt8) (shortlen : BitVec 16) :
    4 ≤ ((setHeader major minor shortlen (call.vector.map Part.memory)).headD []).length := by
  obtain ⟨first, rest, hvec⟩ := List.exists_cons_of_ne_nil call.count_pos
  have hfirst : 4 ≤ first.len := call.header_le hraw first (by simp [hvec])
  have hlen : (setOpcode major minor first.memory).length = first.len :=
    length_setOpcode major minor first.memory
  simp only [hvec, List.map_cons, setHeader, List.headD_cons]
  rw [length_setLength (by omega), hlen]
  exact hfirst

/-- `xcb_send_request` up to `pthread_mutex_lock`; `none` where it shuts the connection down. -/
def SendCall.prepare (call : SendCall) (setupMaximum : BitVec 16) : Option PreparedRequest :=
  let parts := call.vector.map Part.memory
  if hraw : hasFlag call.flags requestRaw = false then
    match call.opcodes, call.lengths setupMaximum with
    | some (major, minor), some (shortlen, bigLength) =>
      let parts := setHeader major minor shortlen parts
      some {
        isvoid := call.isvoid
        flags := call.flags &&& ~~~requestRaw
        workaround := glxWorkaround call parts
        bigLength := bigLength
        parts := parts
        header_le := fun _ => header_le_setHeader hraw major minor shortlen }
    | _, _ => none
  else
    some {
      isvoid := call.isvoid
      flags := call.flags &&& ~~~requestRaw
      workaround := glxWorkaround call parts
      bigLength := 0
      parts := parts
      header_le := fun h => absurd rfl h }

theorem isvoid_of_prepare {call : SendCall} {setupMaximum : BitVec 16} {req : PreparedRequest}
    (h : call.prepare setupMaximum = some req) :
    req.isvoid = call.isvoid := by
  simp only [SendCall.prepare] at h
  split at h
  · split at h
    · cases h
      rfl
    · cases h
  · cases h
    rfl

theorem flags_of_prepare {call : SendCall} {setupMaximum : BitVec 16} {req : PreparedRequest}
    (h : call.prepare setupMaximum = some req) : req.flags = call.flags &&& ~~~requestRaw := by
  simp only [SendCall.prepare] at h
  split at h
  · split at h
    · cases h
      rfl
    · cases h
  · cases h
    rfl

theorem workaround_of_prepare {call : SendCall} {setupMaximum : BitVec 16} {req : PreparedRequest}
    (h : call.prepare setupMaximum = some req) : req.workaround ≠ .externalSocketOwner := by
  have hglx : ∀ parts, glxWorkaround call parts ≠ .externalSocketOwner := by
    intro parts
    unfold glxWorkaround
    split
    · split <;> decide
    · decide
  simp only [SendCall.prepare] at h
  split at h
  · split at h
    · cases h
      exact hglx _
    · cases h
  · cases h
    exact hglx _

/-! ### `xcb_send_request`, with the lock -/

/-- The condition of the loop that inserts a `GetInputFocus`. -/
def XcbConnection.needsSync (c : XcbConnection τ β) (isvoid : Bool) : Bool :=
  isvoid && c.out.request == c.inp.requestExpected + (1 <<< 16) - 1 || c.out.request == 0

/-- One turn of that loop: the number goes to the `GetInputFocus`. -/
def XcbConnection.insertSync (c : XcbConnection τ β) : XcbConnection τ β :=
  { c with
    inp := { c.inp.expectReply c.out.request .none requestDiscardReply with
      requestExpected := c.out.request }
    out := { c.out with request := c.out.request + 1 } }

/-- The loop, for at most `fuel` turns, and how many it made. `needsSync_syncLoop` says that it
never needs more than two. -/
def XcbConnection.syncLoop (isvoid : Bool) : ℕ → XcbConnection τ β → XcbConnection τ β × ℕ
  | 0, c => (c, 0)
  | fuel + 1, c =>
    if c.needsSync isvoid then
      let (c, count) := c.insertSync.syncLoop isvoid fuel
      (c, count + 1)
    else (c, 0)

/-- The last number is the request's own. -/
def XcbConnection.expectRequest (c : XcbConnection τ β) (req : PreparedRequest) :
    XcbConnection τ β :=
  let inp := if req.workaround ≠ .none ∨ req.flags ≠ 0 then
      c.inp.expectReply c.out.request req.workaround req.flags
    else c.inp
  { c with
    inp := { inp with
      requestExpected := if req.isvoid then inp.requestExpected else c.out.request } }

/-- `++c->out.request` -/
def XcbConnection.nextRequest (c : XcbConnection τ β) : XcbConnection τ β :=
  { c with out := { c.out with request := c.out.request + 1 } }

/-- From `++c->out.request` to the last update of `request_expected`, and how many `GetInputFocus`
requests were numbered before the request. -/
def XcbConnection.numberRequest (c : XcbConnection τ β) (req : PreparedRequest) :
    XcbConnection τ β × ℕ :=
  let (c, count) := c.nextRequest.syncLoop req.isvoid 2
  (c.expectRequest req, count)

/-- `sync_req` -/
def syncReq : List UInt8 := [43, 0, 1, 0]

/-- The vector `write_block` gets: `prefix` in front when there is a `GetInputFocus` to send or a
length word to add, in which case the first word moves there too. -/
def PreparedRequest.vector (req : PreparedRequest) (sync : Bool) : List (List UInt8) :=
  let first := if sync then syncReq else []
  if req.bigLength ≠ 0 then
    match req.parts with
    | part :: parts =>
      (first ++ part.take 4 ++ bytes32 req.bigLength) :: part.drop 4 :: parts
    | [] => []
  else if sync then first :: req.parts
  else req.parts

/-- What a request is on the wire. -/
def PreparedRequest.encoding (req : PreparedRequest) : List UInt8 :=
  if req.bigLength ≠ 0 then
    req.parts.flatten.take 4 ++ bytes32 req.bigLength ++ req.parts.flatten.drop 4
  else req.parts.flatten

end Xcb
