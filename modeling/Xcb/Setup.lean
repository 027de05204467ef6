import Xcb.PacketSize
import Xcb.Threads
import Xcb.PartialWrite
import Xcb.Framing

/-!
# Setting up a connection

A connection begins with a request of its own kind, which `write_setup` sends, and an answer of its
own kind, which `read_setup` takes. No other thread has the connection yet. The lengths of the name
and of the data in the request have 16 bits, and so have the parts that are sent.

The structures are generated from the protocol's description, and have its layout: 12 bytes before
the name, and 8 bytes before the rest of an answer.

## Main definitions

* `setupVector` — what `write_setup` sends
* `parseSetup` — how a server reads it
* `Connecting.writeSetup`, `Connecting.readSetup` — the two functions
* `Connecting.setUp` — one after the other

## Main results

* `parseSetup_append` — the server reads what was sent, and nothing behind it
* `Connecting.writeSetup_splits` — what has been written, whatever the system does
* `Connecting.setUp_iff` — when an answer is accepted, and what is left behind it
-/

namespace Xcb

variable {τ : Type}

/-! ### The request -/

/-- `XCB_PAD` -/
def xcbPad (n : ℕ) : ℕ := (-(n : ℤ) % 4).toNat

theorem xcbPad_le (n : ℕ) : xcbPad n ≤ 3 := by
  unfold xcbPad
  omega

/-- `xcb_auth_info_t`. The lengths are those of the lists. -/
structure AuthInfo where
  name : List UInt8
  data : List UInt8

/-- `xcb_setup_request_t`, in memory: `l` for the least significant byte first, the version, and the
lengths. -/
def setupRequest (nameLen dataLen : BitVec 16) : List UInt8 :=
  [0x6c, 0] ++ bytes16 11 ++ bytes16 0 ++ bytes16 nameLen ++ bytes16 dataLen ++ [0, 0]

/-- The first bytes of a part of memory. -/
def Iovec.front (bytes : List UInt8) (len : ℕ) : Iovec := ⟨.memory bytes, 0, len⟩

/-- `static const char pad[3]` -/
def setupPad : List UInt8 := [0, 0, 0]

/-- A string and what it is padded with. An `iov_len` is assigned through the field of the request
that has the length, which cuts it to 16 bits. -/
def paddedPart (bytes : List UInt8) : List Iovec :=
  [.front bytes (BitVec.ofNat 16 bytes.length).toNat,
    .front setupPad (xcbPad (BitVec.ofNat 16 bytes.length).toNat)]

/-- `parts`, in `write_setup`. -/
def setupVector : Option AuthInfo → List Iovec
  | none => [.ofMemory (setupRequest 0 0), .front setupPad (xcbPad 12)]
  | some auth =>
    [.ofMemory (setupRequest (BitVec.ofNat 16 auth.name.length) (BitVec.ofNat 16 auth.data.length)),
      .front setupPad (xcbPad 12)] ++ paddedPart auth.name ++ paddedPart auth.data

/-- All bytes of the request. -/
def setupBytes (auth : Option AuthInfo) : List UInt8 := gather [] (setupVector auth)

/-- What a server learns from the request. -/
structure SetupRequest where
  byteOrder : UInt8
  major : ℕ
  minor : ℕ
  name : List UInt8
  data : List UInt8
  deriving DecidableEq, Repr

/-- How a server reads the request, once there is enough. What is behind it stays. -/
def parseSetup (bytes : List UInt8) : Option (SetupRequest × List UInt8) :=
  let n := ofBytes ((bytes.drop 6).take 2)
  let d := ofBytes ((bytes.drop 8).take 2)
  let rest := bytes.drop 12
  if bytes.length < 12 + (n + xcbPad n) + (d + xcbPad d) then none
  else some (⟨bytes.headD 0, ofBytes ((bytes.drop 2).take 2), ofBytes ((bytes.drop 4).take 2),
    rest.take n, (rest.drop (n + xcbPad n)).take d⟩, rest.drop (n + xcbPad n + (d + xcbPad d)))

/-- The request that the arguments of `write_setup` are meant to make: a string that is too long is
cut to the length that is sent. -/
def AuthInfo.request (auth : AuthInfo) : SetupRequest where
  byteOrder := 0x6c
  major := 11
  minor := 0
  name := auth.name.take (auth.name.length % 2 ^ 16)
  data := auth.data.take (auth.data.length % 2 ^ 16)

/-- No authorization is the same as an empty one. -/
def setupOf (auth : Option AuthInfo) : SetupRequest := (auth.getD ⟨[], []⟩).request

/-- A part of the request, with what it is padded with. -/
def padded (bytes : List UInt8) : List UInt8 :=
  bytes.take (bytes.length % 2 ^ 16) ++ setupPad.take (xcbPad (bytes.length % 2 ^ 16))

theorem gather_paddedPart (bytes : List UInt8) : gather [] (paddedPart bytes) = padded bytes := by
  rw [padded, ← BitVec.toNat_ofNat]
  show _ ++ (_ ++ []) = _
  rw [List.append_nil]
  rfl

theorem gather_append (queue : List UInt8) (vector vector' : List Iovec) :
    gather queue (vector ++ vector') = gather queue vector ++ gather queue vector' :=
  List.flatMap_append

/-- The request, part by part. -/
theorem setupBytes_eq (auth : Option AuthInfo) : setupBytes auth =
    setupRequest (BitVec.ofNat 16 (auth.getD ⟨[], []⟩).name.length)
        (BitVec.ofNat 16 (auth.getD ⟨[], []⟩).data.length) ++
      padded (auth.getD ⟨[], []⟩).name ++ padded (auth.getD ⟨[], []⟩).data := by
  cases auth with
  | none => rfl
  | some auth =>
    rw [setupBytes, setupVector, gather_append, gather_append, gather_paddedPart, gather_paddedPart]
    rfl

theorem length_setupRequest (nameLen dataLen : BitVec 16) :
    (setupRequest nameLen dataLen).length = 12 := rfl

theorem length_padded (bytes : List UInt8) :
    (padded bytes).length = bytes.length % 2 ^ 16 + xcbPad (bytes.length % 2 ^ 16) := by
  have hpad := xcbPad_le (bytes.length % 2 ^ 16)
  have hpads : setupPad.length = 3 := rfl
  rw [padded, List.length_append, List.length_take, List.length_take, hpads]
  omega

/-- The lengths in the request. -/
theorem ofBytes_nameLen (auth : Option AuthInfo) (rest : List UInt8) :
    ofBytes (((setupBytes auth ++ rest).drop 6).take 2) =
      (auth.getD ⟨[], []⟩).name.length % 2 ^ 16 := by
  rw [setupBytes_eq, ← BitVec.toNat_ofNat]
  exact ofBytes_bytes16 _

theorem ofBytes_dataLen (auth : Option AuthInfo) (rest : List UInt8) :
    ofBytes (((setupBytes auth ++ rest).drop 8).take 2) =
      (auth.getD ⟨[], []⟩).data.length % 2 ^ 16 := by
  rw [setupBytes_eq, ← BitVec.toNat_ofNat]
  exact ofBytes_bytes16 _

theorem length_setupBytes (auth : Option AuthInfo) : (setupBytes auth).length =
    12 + ((auth.getD ⟨[], []⟩).name.length % 2 ^ 16 +
        xcbPad ((auth.getD ⟨[], []⟩).name.length % 2 ^ 16)) +
      ((auth.getD ⟨[], []⟩).data.length % 2 ^ 16 +
        xcbPad ((auth.getD ⟨[], []⟩).data.length % 2 ^ 16)) := by
  rw [setupBytes_eq, List.length_append, List.length_append, length_padded, length_padded,
    length_setupRequest]

/-- A string, in front of what it is padded with. -/
theorem take_padded (bytes rest : List UInt8) :
    (padded bytes ++ rest).take (bytes.length % 2 ^ 16) = bytes.take (bytes.length % 2 ^ 16) := by
  have hlength : (bytes.take (bytes.length % 2 ^ 16)).length = bytes.length % 2 ^ 16 := by
    rw [List.length_take]
    omega
  rw [padded, List.append_assoc, List.take_left' hlength]

/-- What a reader finds behind a string and what it is padded with. -/
theorem drop_padded (bytes rest : List UInt8) :
    (padded bytes ++ rest).drop
      (bytes.length % 2 ^ 16 + xcbPad (bytes.length % 2 ^ 16)) = rest :=
  List.drop_left' (length_padded bytes)

/-- **The round trip.** A server that reads the request finds what was sent, and what is behind. -/
theorem parseSetup_append (auth : Option AuthInfo) (rest : List UInt8) :
    parseSetup (setupBytes auth ++ rest) = some (setupOf auth, rest) := by
  have hn := ofBytes_nameLen auth rest
  have hd := ofBytes_dataLen auth rest
  have hlength := length_setupBytes auth
  have henough : ¬(setupBytes auth ++ rest).length <
      12 + ((auth.getD ⟨[], []⟩).name.length % 2 ^ 16 +
          xcbPad ((auth.getD ⟨[], []⟩).name.length % 2 ^ 16)) +
        ((auth.getD ⟨[], []⟩).data.length % 2 ^ 16 +
          xcbPad ((auth.getD ⟨[], []⟩).data.length % 2 ^ 16)) := by
    rw [List.length_append, hlength]
    omega
  have hskip : (setupBytes auth ++ rest).drop 12 =
      padded (auth.getD ⟨[], []⟩).name ++ (padded (auth.getD ⟨[], []⟩).data ++ rest) := by
    rw [setupBytes_eq, List.append_assoc, List.append_assoc]
    exact List.drop_left' rfl
  have hbehind : (padded (auth.getD ⟨[], []⟩).name ++
      (padded (auth.getD ⟨[], []⟩).data ++ rest)).drop
        ((auth.getD ⟨[], []⟩).name.length % 2 ^ 16 +
            xcbPad ((auth.getD ⟨[], []⟩).name.length % 2 ^ 16) +
          ((auth.getD ⟨[], []⟩).data.length % 2 ^ 16 +
            xcbPad ((auth.getD ⟨[], []⟩).data.length % 2 ^ 16))) = rest := by
    rw [← List.drop_drop, drop_padded, drop_padded]
  simp only [parseSetup, hn, hd, hskip, if_neg henough, drop_padded, take_padded, hbehind]
  rw [setupBytes_eq]
  rfl

/-- As long as something is missing, a server waits for it. -/
theorem parseSetup_eq_none {auth : Option AuthInfo} {sent rest : List UInt8}
    (h : sent ++ rest = setupBytes auth) (hrest : rest ≠ []) : parseSetup sent = none := by
  have hpos := List.length_pos_iff.mpr hrest
  have hlength := length_setupBytes auth
  have hn := ofBytes_nameLen auth []
  have hd := ofBytes_dataLen auth []
  rw [← h, List.length_append] at hlength
  rw [List.append_nil, ← h] at hn hd
  unfold parseSetup
  by_cases hheader : sent.length < 12
  · exact if_pos (by omega)
  · -- the lengths have arrived
    rw [List.drop_append_of_le_length (by omega), List.take_append_of_le_length
      (by rw [List.length_drop]; omega)] at hn hd
    simp only [hn, hd]
    exact if_pos (by omega)

/-! ### Sending it -/

/-- What the system does in one turn of the loop of `_xcb_out_send`. What `writev` returns may
depend on how much there is to write. -/
structure SendTurn where
  failed : Bool
  pollin : Bool
  pollout : Bool
  writev : ℕ → WriteResult
  valid : ∀ total, (writev total).Valid total

/-- A connection that is being set up: where it reads, all bytes that were written to the socket,
and those that were written to the standard error output. -/
structure Connecting (τ : Type) where
  input : Input τ
  socket : List UInt8
  stderr : List UInt8
  deriving DecidableEq, Repr

/-- `_xcb_out_send` between two turns: `ret`, and what is left of the vector. -/
structure Sending (τ : Type) extends Connecting τ where
  ret : Bool
  vector : List Iovec
  deriving Repr

namespace Sending

/-- `write_vec`, with an empty queue. It is `none` where the assertion fails. -/
def writeVec (s : Sending τ) : WriteResult → Option (Sending τ)
  | .again => some s
  | .failed => some { s with input := s.input.shutdown, ret := false }
  | .wrote n =>
    let (left, rest) := Xcb.writeVec s.vector n
    if rest ≠ 0 then none
    else some { s with socket := s.socket ++ (gather [] s.vector).take n, vector := left }

/-- What is read, when there is something. -/
def pollRead (memory : Memory) (s : Sending τ) (turn : SendTurn) : Option (Sending τ) :=
  if turn.pollin then
    (s.input.read memory).map fun (ret, input) => { s with input := input, ret := ret }
  else some s

/-- `_xcb_conn_wait`. No other thread is reading or writing. -/
def connWait (memory : Memory) (s : Sending τ) (turn : SendTurn) : Option (Sending τ) :=
  if turn.failed then some { s with input := s.input.shutdown, ret := false }
  else
    (s.pollRead memory turn).bind fun s =>
      if turn.pollout ∧ s.ret then s.writeVec (turn.writev (gather [] s.vector).length)
      else some s

/-- The loop of `_xcb_out_send`, for these turns. -/
def outSend (memory : Memory) (s : Sending τ) : List SendTurn → Option (Sending τ)
  | [] => some s
  | turn :: turns =>
    if s.ret ∧ s.vector ≠ [] then (s.connWait memory turn).bind fun s => s.outSend memory turns
    else some s

end Sending

/-- `write_setup`, up to where it is after these turns. -/
def Connecting.writeSetup (memory : Memory) (c : Connecting τ) (auth : Option AuthInfo)
    (turns : List SendTurn) : Option (Sending τ) :=
  Sending.outSend memory { c with ret := true, vector := setupVector auth } turns

/-! ### What has been sent -/

/-- A new connection, with what will arrive. -/
def Connecting.init (arrivals : List Arrival) : Connecting τ where
  input := { conn := XcbIn.init, hasError := false, queue := [], arrivals, delivered := [] }
  socket := []
  stderr := []

namespace Sending

/-- What was written is the beginning of the request, and what is left is the rest. -/
structure Splits (auth : Option AuthInfo) (s : Sending τ) : Prop where
  bytes : s.socket ++ gather [] s.vector = setupBytes auth
  sane : ∀ v ∈ s.vector, v.Sane []
  nil : gather [] s.vector = [] → s.vector = []
  failed : s.ret = false → s.input.hasError = true

variable {auth : Option AuthInfo} {memory : Memory} {s t : Sending τ}

theorem sane_front {bytes : List UInt8} {len : ℕ} (hle : len ≤ bytes.length) (hlt : len < 2 ^ 31) :
    (Iovec.front bytes len).Sane [] where
  offset := le_rfl
  bound := by simpa [Iovec.front, Iovec.memory] using hle
  short := hlt

theorem sane_paddedPart (bytes : List UInt8) : ∀ v ∈ paddedPart bytes, v.Sane [] := by
  have hpad := xcbPad_le (BitVec.ofNat 16 bytes.length).toNat
  have hlen := (BitVec.ofNat 16 bytes.length).isLt
  intro v hv
  rcases List.mem_pair.mp hv with rfl | rfl
  · refine sane_front ?_ (by omega)
    rw [BitVec.toNat_ofNat]
    exact Nat.mod_le _ _
  · exact sane_front hpad (by omega)

theorem sane_setupVector (auth : Option AuthInfo) : ∀ v ∈ setupVector auth, v.Sane [] := by
  have hheader : ∀ nameLen dataLen, (Iovec.ofMemory (setupRequest nameLen dataLen)).Sane [] :=
    fun _ _ => sane_ofMemory (by norm_num [length_setupRequest])
  have hpad : (Iovec.front setupPad (xcbPad 12)).Sane [] := sane_front (by decide) (by decide)
  cases auth with
  | none =>
    intro v hv
    rcases List.mem_pair.mp hv with rfl | rfl
    · exact hheader _ _
    · exact hpad
  | some auth =>
    intro v hv
    rcases List.mem_append.mp hv with hv | hv
    · rcases List.mem_append.mp hv with hv | hv
      · rcases List.mem_pair.mp hv with rfl | rfl
        · exact hheader _ _
        · exact hpad
      · exact sane_paddedPart _ v hv
    · exact sane_paddedPart _ v hv

theorem splits_init (auth : Option AuthInfo) {c : Connecting τ} (hsocket : c.socket = []) :
    Splits auth { c with ret := true, vector := setupVector auth } where
  bytes := by
    rw [hsocket]
    rfl
  sane := sane_setupVector auth
  nil := by
    intro hnil
    have hlength := length_setupBytes auth
    rw [setupBytes, hnil, List.length_nil] at hlength
    omega
  failed := fun h => absurd h.symm Bool.false_ne_true

/-- **One call of `write_vec`.** The assertion holds. -/
theorem Splits.writeVec (h : s.Splits auth) {w : WriteResult}
    (hw : w.Valid (gather [] s.vector).length) :
    ∃ t, s.writeVec w = some t ∧ t.Splits auth ∧
      (w ≠ .failed → t.ret = s.ret ∧ t.input = s.input ∧ t.stderr = s.stderr) ∧
        ∀ n, w = .wrote n → gather [] t.vector = (gather [] s.vector).drop n := by
  cases w with
  | again => exact ⟨s, rfl, h, fun _ => ⟨rfl, rfl, rfl⟩, fun n hn => by cases hn⟩
  | failed =>
    exact ⟨_, rfl, ⟨h.bytes, h.sane, h.nil, fun _ => rfl⟩, fun h => absurd rfl h,
      fun n hn => by cases hn⟩
  | wrote n =>
    obtain ⟨-, hle, hn⟩ := hw
    obtain ⟨hrest, hgather, hsane⟩ := gather_writeVec h.sane hn hle
    refine ⟨_, if_neg (not_not.mpr hrest), ⟨?_, hsane, ?_, h.failed⟩, fun _ => ⟨rfl, rfl, rfl⟩,
      fun m hm => by cases hm; exact hgather⟩
    · show _ ++ _ ++ gather [] (Xcb.writeVec s.vector n).1 = _
      rw [hgather, List.append_assoc, List.take_append_drop, h.bytes]
    · intro hnil
      -- all bytes are counted off, and the parts with them
      have hin : ∀ v ∈ s.vector, v.Inside [] := fun v hv => (h.sane v hv).inside
      have hshort : ∀ len ∈ s.vector.map Iovec.len, len < 2 ^ 31 := by
        intro len hlen
        obtain ⟨v, hv, rfl⟩ := List.mem_map.mp hlen
        exact (h.sane v hv).short
      have hsum := length_gather hin
      obtain ⟨-, -, hlens, -⟩ := writeVec_of_cuts hin
        (fun v hv => (h.sane v hv).short.trans (by norm_num)) hn (hsum ▸ hle) (cuts_of_short hshort)
      have hdrop := hgather.symm.trans hnil
      rw [List.drop_eq_nil_iff, hsum, ← cut_eq_nil_iff, ← hlens] at hdrop
      exact List.map_eq_nil_iff.mp hdrop

/-- A failure of `_xcb_in_read` shuts the connection down. -/
theorem hasError_of_read {a b : Input τ} (h : a.read memory = some (false, b)) :
    b.hasError = true := by
  rw [Input.read] at h
  generalize recv _ _ = received at h
  obtain ⟨u, -, hu⟩ := Option.map_eq_some_iff.mp h
  split at hu
  · cases hu
    rfl
  · cases hu

theorem Splits.pollRead (h : s.Splits auth) {turn : SendTurn}
    (ht : s.pollRead memory turn = some t) : t.Splits auth := by
  unfold Sending.pollRead at ht
  split at ht
  · obtain ⟨⟨ret, input⟩, hread, rfl⟩ := Option.map_eq_some_iff.mp ht
    refine ⟨h.bytes, h.sane, h.nil, fun hret => ?_⟩
    obtain rfl : ret = false := hret
    exact hasError_of_read hread
  · cases ht
    exact h

/-- **One turn.** -/
theorem Splits.connWait (h : s.Splits auth) {turn : SendTurn}
    (ht : s.connWait memory turn = some t) : t.Splits auth := by
  unfold Sending.connWait at ht
  split at ht
  · cases ht
    exact ⟨h.bytes, h.sane, h.nil, fun _ => rfl⟩
  · obtain ⟨u, hu, hrest⟩ := Option.bind_eq_some_iff.mp ht
    have hsplits := h.pollRead hu
    split at hrest
    · obtain ⟨v, hv, hv', -⟩ := hsplits.writeVec (turn.valid _)
      rw [hv] at hrest
      cases hrest
      exact hv'
    · cases hrest
      exact hsplits

/-- **All turns.** -/
theorem Splits.outSend (h : s.Splits auth) {turns : List SendTurn}
    (ht : s.outSend memory turns = some t) : t.Splits auth := by
  induction turns generalizing s with
  | nil =>
    cases ht
    exact h
  | cons turn turns ih =>
    rw [Sending.outSend] at ht
    split at ht
    · obtain ⟨u, hu, hrest⟩ := Option.bind_eq_some_iff.mp ht
      exact ih (h.connWait hu) hrest
    · cases ht
      exact h

/-- What a server finds, by what is left of the vector. -/
theorem Splits.parseSetup (h : s.Splits auth) :
    Xcb.parseSetup s.socket = if s.vector = [] then some (setupOf auth, []) else none := by
  split
  · next hnil =>
    have hbytes := h.bytes
    rw [hnil, gather_nil, List.append_nil] at hbytes
    have hparse := parseSetup_append auth []
    rw [List.append_nil, ← hbytes] at hparse
    exact hparse
  · next hne => exact parseSetup_eq_none h.bytes (mt h.nil hne)

/-- The server is silent, and nothing fails. -/
structure Calm (turn : SendTurn) : Prop where
  failed : turn.failed = false
  pollin : turn.pollin = false
  writev : ∀ total, turn.writev total ≠ .failed

/-- The socket takes something. -/
structure Writes (turn : SendTurn) : Prop where
  pollout : turn.pollout = true
  writev : ∀ total, 0 < total → ∃ n, turn.writev total = .wrote n

/-- **A calm turn** does not fail, and leaves the input alone. -/
theorem Splits.connWait_of_calm (memory : Memory) (h : s.Splits auth) (hret : s.ret = true)
    {turn : SendTurn} (hcalm : Calm turn) :
    ∃ t, s.connWait memory turn = some t ∧ t.Splits auth ∧ t.ret = true ∧
      t.input = s.input ∧ t.stderr = s.stderr ∧
        (Writes turn → s.vector ≠ [] →
          (gather [] t.vector).length < (gather [] s.vector).length) := by
  obtain ⟨hfailed, hpollin, hwritev⟩ := hcalm
  have hread : s.pollRead memory turn = some s := by
    rw [Sending.pollRead, hpollin]
    rfl
  rw [Sending.connWait, hfailed, hread]
  simp only [Bool.false_eq_true, if_false, Option.bind_some]
  by_cases hpollout : turn.pollout = true
  · obtain ⟨t, ht, hsplits, hsame, hdrop⟩ := h.writeVec (turn.valid (gather [] s.vector).length)
    obtain ⟨hret', hinput, hstderr⟩ := hsame (hwritev _)
    refine ⟨t, ?_, hsplits, hret'.trans hret, hinput, hstderr, fun hwrites hne => ?_⟩
    · rw [if_pos ⟨hpollout, hret⟩, ht]
    · have hpos := List.length_pos_iff.mpr (mt h.nil hne)
      obtain ⟨n, hn⟩ := hwrites.writev _ hpos
      have hvalid := turn.valid (gather [] s.vector).length
      rw [hn] at hvalid
      rw [hdrop n hn, List.length_drop]
      exact Nat.sub_lt hpos hvalid.1
  · exact ⟨s, if_neg fun hgo => hpollout hgo.1, h, hret, rfl, rfl,
      fun hwrites => absurd hwrites.pollout hpollout⟩

/-- **Calm turns.** Enough of them in which the socket takes something send everything. -/
theorem Splits.outSend_of_calm (memory : Memory) (h : s.Splits auth) (hret : s.ret = true)
    {turns : List SendTurn} (hcalm : ∀ turn ∈ turns, Calm turn) :
    ∃ t, s.outSend memory turns = some t ∧ t.Splits auth ∧
      t.ret = true ∧ t.input = s.input ∧ t.stderr = s.stderr ∧
        ((∀ turn ∈ turns, Writes turn) → (gather [] s.vector).length ≤ turns.length →
          t.vector = []) := by
  induction turns generalizing s with
  | nil =>
    exact ⟨s, rfl, h, hret, rfl, rfl, fun _ hle => h.nil (List.eq_nil_of_length_eq_zero
      (Nat.le_zero.mp hle))⟩
  | cons turn turns ih =>
    rw [Sending.outSend]
    by_cases hnil : s.vector = []
    · exact ⟨s, if_neg fun hgo => hgo.2 hnil, h, hret, rfl, rfl, fun _ _ => hnil⟩
    · obtain ⟨u, hu, hsplits, huret, huinput, hustderr, hless⟩ :=
        h.connWait_of_calm memory hret (hcalm turn List.mem_cons_self)
      obtain ⟨t, ht, htsplits, htret, htinput, htstderr, hall⟩ :=
        ih hsplits huret fun turn hturn => hcalm turn (List.mem_cons_of_mem _ hturn)
      refine ⟨t, ?_, htsplits, htret, htinput.trans huinput, htstderr.trans hustderr, ?_⟩
      · rw [if_pos ⟨hret, hnil⟩, hu]
        exact ht
      · intro hwrites hle
        have hlt := hless (hwrites turn List.mem_cons_self) hnil
        refine hall (fun turn hturn => hwrites turn (List.mem_cons_of_mem _ hturn)) ?_
        rw [List.length_cons] at hle
        omega

end Sending

/-! ### The answer -/

/-- The size of an answer, by its header. -/
def answerSize (bytes : List UInt8) : ℕ := 8 + 4 * ofBytes ((bytes.drop 6).take 2)

namespace Connecting

/-- The end of `read_setup`: `switch(c->setup->status)`. The reason for a refusal has a length of
its own, which no one has compared with how much there is; it is `none` where there is less. -/
def finishSetup (c : Connecting τ) (setup : List UInt8) :
    Option (Option (List UInt8) × Connecting τ) :=
  if setup.headD 0 = 0 then
    let len := (setup.getD 1 0).toNat
    if setup.length < 8 + len then none
    else some (none, { c with stderr := c.stderr ++ (setup.drop 8).take len })
  else if setup.headD 0 = 2 then some (none, { c with stderr := c.stderr ++ setup.drop 8 })
  else some (some setup, c)

/-- `read_setup`: `c->setup`, or `none` where it returns `0`. -/
def readSetup (memory : Memory) (c : Connecting τ) : Option (Option (List UInt8) × Connecting τ) :=
  if memory.grants 8 then
    match c.input.readBlock 8 with
    | some (some header, input) =>
      if memory.grants (answerSize header) then
        match input.readBlock (answerSize header - 8) with
        | some (some rest, input) => finishSetup { c with input } (header ++ rest)
        | some (none, input) => some (none, { c with input })
        | none => none
      else some (none, { c with input })
    | some (none, input) => some (none, { c with input })
    | none => none
  else some (none, c)

/-- An answer is there. -/
structure Answered (memory : Memory) (bytes : List UInt8) : Prop where
  header : memory.grants 8 = true
  grants : memory.grants (answerSize bytes) = true
  nonempty : 8 < answerSize bytes
  whole : answerSize bytes ≤ bytes.length

variable {memory : Memory} {c : Connecting τ}

theorem answerSize_append {header rest : List UInt8} (h : 8 ≤ header.length) :
    answerSize (header ++ rest) = answerSize header := by
  rw [answerSize, answerSize, List.drop_append_of_le_length (by omega),
    List.take_append_of_le_length (by rw [List.length_drop]; omega)]

/-- **When an answer is there** it is read, and nothing behind it. -/
theorem readSetup_of_answered (hopen : .failed ∉ c.input.arrivals)
    (h : Answered memory c.input.bytes) :
    ∃ t, c.input.Took t (c.input.bytes.take (answerSize c.input.bytes)) ∧ .failed ∉ t.arrivals ∧
      c.readSetup memory =
        finishSetup { c with input := t } (c.input.bytes.take (answerSize c.input.bytes)) := by
  obtain ⟨hheader, hgrants, hnonempty, hwhole⟩ := h
  rcases c.input.readBlock_cases (by decide : (0 : ℤ) < 8) with
    ⟨header, u, hread, hlength, htook, hopen'⟩ | ⟨-, hshort⟩
  · have hbytes := htook.bytes
    have hsize : answerSize c.input.bytes = answerSize header := by
      rw [hbytes, answerSize_append (by omega)]
    have hpos : (0 : ℤ) < answerSize header - 8 := by omega
    rcases u.readBlock_cases hpos with
      ⟨rest, t, hread', hlength', htook', hopen''⟩ | ⟨-, hshort⟩
    · have hall := htook.trans htook'
      have hboth : (header ++ rest).length = answerSize c.input.bytes := by
        rw [List.length_append]
        omega
      have htaken : c.input.bytes.take (answerSize c.input.bytes) = header ++ rest := by
        rw [← hboth, hall.bytes, List.take_left]
      refine ⟨t, htaken ▸ hall, hopen'' (hopen' hopen), ?_⟩
      rw [hsize] at hgrants
      rw [htaken, readSetup, if_pos hheader, hread]
      simp only [hgrants, if_true, hread']
    · have hless := hshort (hopen' hopen)
      have hall := congrArg List.length hbytes
      rw [List.length_append] at hall
      omega
  · have hless := hshort hopen
    omega

/-- **When it is not** nothing is accepted. -/
theorem readSetup_of_not_answered (h : ¬ Answered memory c.input.bytes) :
    ∃ t, c.readSetup memory = some (none, t) := by
  unfold readSetup
  by_cases hheader : memory.grants 8 = true
  · rw [if_pos hheader]
    rcases c.input.readBlock_cases (by decide : (0 : ℤ) < 8) with
      ⟨header, u, hread, hlength, htook, -⟩ | ⟨⟨u, hread, -⟩, -⟩
    · have hbytes := htook.bytes
      have hsize : answerSize c.input.bytes = answerSize header := by
        rw [hbytes, answerSize_append (by omega)]
      rw [hread]
      dsimp only
      by_cases hgrants : memory.grants (answerSize header) = true
      · rw [if_pos hgrants]
        by_cases hnonempty : 8 < answerSize header
        · have hpos : (0 : ℤ) < answerSize header - 8 := by omega
          rcases u.readBlock_cases hpos with
            ⟨rest, t, hread', hlength', htook', -⟩ | ⟨⟨t, hread', -⟩, -⟩
          · have hall := congrArg List.length (htook.trans htook').bytes
            rw [List.length_append, List.length_append] at hall
            exact absurd ⟨hheader, hsize ▸ hgrants, hsize ▸ hnonempty, by omega⟩ h
          · exact ⟨_, by rw [hread']⟩
        · have hzero : (answerSize header - 8 : ℤ) = 0 := by
            have hle : 8 ≤ answerSize header := Nat.le_add_right 8 _
            omega
          exact ⟨{ c with input := { u with queue := u.queue.drop 0 } }, by
            rw [hzero]; simp [Input.readBlock]⟩
      · exact ⟨_, if_neg hgrants⟩
    · exact ⟨_, by rw [hread]⟩
  · exact ⟨c, if_neg hheader⟩

/-! ### Both ways -/

/-- `write_setup(c, auth_info) && read_setup(c)`, with as many turns as the request takes. -/
def setUp (memory : Memory) (c : Connecting τ) (auth : Option AuthInfo) (turns : List SendTurn) :
    Option (Option (List UInt8) × Connecting τ) :=
  (c.writeSetup memory auth turns).bind fun s =>
    if s.ret ∧ s.vector = [] then s.toConnecting.readSetup memory else some (none, s.toConnecting)

/-- The answer is neither a refusal nor a question. -/
def Succeeds (bytes : List UInt8) : Prop := bytes.headD 0 ≠ 0 ∧ bytes.headD 0 ≠ 2

/-- The reason for the refusal is longer than the answer. -/
def Overreads (bytes : List UInt8) : Prop :=
  bytes.headD 0 = 0 ∧ answerSize bytes < 8 + (bytes.getD 1 0).toNat

instance (bytes : List UInt8) : Decidable (Succeeds bytes) :=
  inferInstanceAs (Decidable (_ ∧ _))

/-- **What has been written** is the beginning of the request, at any time and whatever the system
does. A server reads the request as soon as `write_setup` has sent it, and not before. -/
theorem writeSetup_splits {arrivals : List Arrival} {auth : Option AuthInfo}
    {turns : List SendTurn} {s : Sending τ}
    (h : (Connecting.init arrivals).writeSetup memory auth turns = some s) :
    s.socket <+: setupBytes auth ∧ (s.ret = false → s.input.hasError = true) ∧
      parseSetup s.socket = if s.vector = [] then some (setupOf auth, []) else none := by
  have hsplits := (Sending.splits_init auth rfl).outSend h
  exact ⟨⟨_, hsplits.bytes⟩, hsplits.failed, hsplits.parseSetup⟩

/-- **What comes of an answer.** -/
theorem finishSetup_take {bytes : List UInt8} (h : Answered memory bytes) :
    (Succeeds bytes → finishSetup c (bytes.take (answerSize bytes)) =
        some (some (bytes.take (answerSize bytes)), c)) ∧
      (Overreads bytes → finishSetup c (bytes.take (answerSize bytes)) = none) ∧
        (¬ Succeeds bytes → ¬ Overreads bytes → ∃ d,
          finishSetup c (bytes.take (answerSize bytes)) = some (none, d)) := by
  have hpos : 1 < answerSize bytes := h.nonempty.trans' (by decide)
  have hlength : (bytes.take (answerSize bytes)).length = answerSize bytes :=
    List.length_take_of_le h.whole
  have hhead : (bytes.take (answerSize bytes)).headD 0 = bytes.headD 0 := by
    rw [List.headD_eq_head?_getD, List.headD_eq_head?_getD, List.head?_take,
      if_neg (by omega : answerSize bytes ≠ 0)]
  have hreason : (bytes.take (answerSize bytes)).getD 1 0 = bytes.getD 1 0 := by
    rw [List.getD_eq_getElem?_getD, List.getD_eq_getElem?_getD, List.getElem?_take_of_lt hpos]
  unfold finishSetup
  dsimp only
  rw [hhead, hreason, hlength]
  refine ⟨?_, ?_, ?_⟩
  · rintro ⟨hfailed, hauthenticate⟩
    rw [if_neg hfailed, if_neg hauthenticate]
  · rintro ⟨hfailed, hshort⟩
    rw [if_pos hfailed, if_pos hshort]
  · intro hsucceeds hoverreads
    by_cases hfailed : bytes.headD 0 = 0
    · rw [if_pos hfailed, if_neg fun hshort => hoverreads ⟨hfailed, hshort⟩]
      exact ⟨_, rfl⟩
    · rw [if_neg hfailed, if_pos (by_contra fun hne => hsucceeds ⟨hfailed, hne⟩)]
      exact ⟨_, rfl⟩

/-- Before the first packet, only the arrivals of the input half change. -/
theorem input_of_took {arrivals : List Arrival} {t : Input τ} {taken : List UInt8}
    (h : (init arrivals : Connecting τ).input.Took t taken) :
    t = (init t.arrivals : Connecting τ).input ∧
      streamOf arrivals = taken ++ streamOf t.arrivals := by
  have hqueue : t.queue = [] := h.queue.trans List.drop_nil
  have hbytes := h.bytes
  obtain ⟨conn, hasError, queue, rest, delivered⟩ := t
  obtain rfl : conn = _ := h.conn
  obtain rfl : hasError = _ := h.hasError
  obtain rfl : queue = _ := hqueue
  obtain rfl : delivered = _ := h.delivered
  exact ⟨rfl, hbytes⟩

/-- **Setting up.** Over a socket that takes the request, in whatever pieces, and with an answer in
whatever pieces: when it succeeds, when it writes what it has not read, and what is left behind the
answer. -/
theorem setUp_iff (memory : Memory) {arrivals : List Arrival} {auth : Option AuthInfo}
    {turns : List SendTurn} (hopen : .failed ∉ arrivals) (hcalm : ∀ turn ∈ turns, Sending.Calm turn)
    (hwrites : ∀ turn ∈ turns, Sending.Writes turn)
    (hlong : (setupBytes auth).length ≤ turns.length) :
    ((∃ setup c, (init arrivals : Connecting τ).setUp memory auth turns = some (some setup, c)) ↔
        Answered memory (streamOf arrivals) ∧ Succeeds (streamOf arrivals)) ∧
      ((init arrivals : Connecting τ).setUp memory auth turns = none ↔
        Answered memory (streamOf arrivals) ∧ Overreads (streamOf arrivals)) ∧
      ∀ setup c, (init arrivals : Connecting τ).setUp memory auth turns = some (some setup, c) →
        setup.length = answerSize (streamOf arrivals) ∧ ∃ rest,
          streamOf arrivals = setup ++ streamOf rest ∧ .failed ∉ rest ∧
            c = { (init rest : Connecting τ) with socket := setupBytes auth } := by
  obtain ⟨s, hs, hsplits, hret, hinput, hstderr, hall⟩ :=
    (Sending.splits_init auth (c := (init arrivals : Connecting τ)) rfl).outSend_of_calm
      memory rfl hcalm
  have hnil := hall hwrites hlong
  have hsocket := hsplits.bytes
  rw [hnil, gather_nil, List.append_nil] at hsocket
  have hsetUp : (init arrivals : Connecting τ).setUp memory auth turns =
      s.toConnecting.readSetup memory := by
    rw [setUp, writeSetup, hs]
    exact if_pos ⟨hret, hnil⟩
  have hbytes : s.input.bytes = streamOf arrivals := by
    rw [hinput]
    rfl
  have hopen' : .failed ∉ s.toConnecting.input.arrivals := by
    rw [hinput]
    exact hopen
  rw [hsetUp]
  by_cases hanswered : Answered memory (streamOf arrivals)
  · obtain ⟨t, htook, hopent, hread⟩ :=
      readSetup_of_answered hopen' (hbytes.symm ▸ hanswered)
    have hstatus : Succeeds (streamOf arrivals) → ¬ Overreads (streamOf arrivals) :=
      fun hsucceeds hoverreads => hsucceeds.1 hoverreads.1
    obtain ⟨hsucceeds, hoverreads, hrefused⟩ :=
      finishSetup_take (c := { s.toConnecting with input := t }) hanswered
    rw [hbytes] at hread htook
    rw [hread]
    by_cases hok : Succeeds (streamOf arrivals)
    · rw [hsucceeds hok]
      refine ⟨iff_of_true ⟨_, _, rfl⟩ ⟨hanswered, hok⟩,
        iff_of_false (fun h => by cases h) fun h => hstatus hok h.2, ?_⟩
      intro setup c heq
      cases heq
      have htook' : (init arrivals : Connecting τ).input.Took t _ := hinput ▸ htook
      obtain ⟨ht, hstream⟩ := input_of_took htook'
      refine ⟨List.length_take_of_le hanswered.whole, t.arrivals, hstream, hopent, ?_⟩
      show Connecting.mk t s.socket s.stderr = _
      rw [ht, hsocket, hstderr]
      rfl
    · by_cases hbad : Overreads (streamOf arrivals)
      · rw [hoverreads hbad]
        exact ⟨iff_of_false (fun ⟨_, _, h⟩ => by cases h) fun h => hok h.2,
          iff_of_true rfl ⟨hanswered, hbad⟩, fun _ _ h => by cases h⟩
      · obtain ⟨d, hd⟩ := hrefused hok hbad
        rw [hd]
        exact ⟨iff_of_false (fun ⟨_, _, h⟩ => by cases h) fun h => hok h.2,
          iff_of_false (fun h => by cases h) fun h => hbad h.2, fun _ _ h => by cases h⟩
  · obtain ⟨d, hd⟩ := readSetup_of_not_answered (c := s.toConnecting) (hbytes.symm ▸ hanswered)
    rw [hd]
    exact ⟨iff_of_false (fun ⟨_, _, h⟩ => by cases h) fun h => hanswered h.1,
      iff_of_false (fun h => by cases h) fun h => hanswered h.1, fun _ _ h => by cases h⟩

/-- A socket that takes one byte at a time. -/
def trickle : SendTurn where
  failed := false
  pollin := false
  pollout := true
  writev := fun total => if total = 0 then .again else .wrote 1
  valid := by
    intro total
    by_cases h : total = 0
    · rw [if_pos h]
      trivial
    · rw [if_neg h]
      exact ⟨Nat.one_pos, Nat.one_le_iff_ne_zero.mpr h, by norm_num⟩

theorem calm_trickle : Sending.Calm trickle where
  failed := rfl
  pollin := rfl
  writev := by
    intro total
    rw [trickle]
    by_cases h : total = 0 <;> simp [h]

theorem writes_trickle : Sending.Writes trickle where
  pollout := rfl
  writev := fun _ h => ⟨1, if_neg h.ne'⟩

/-- Three bytes are not a request. -/
theorem writeSetup_trickle :
    ∃ s : Sending Empty, (init []).writeSetup Input.generous none (List.replicate 3 trickle) =
      some s ∧ s.socket = [0x6c, 0, 11] ∧ parseSetup s.socket = none := by
  obtain ⟨s, hs, hsocket, hvector⟩ : ∃ s : Sending Empty,
      (init []).writeSetup Input.generous none (List.replicate 3 trickle) = some s ∧
        s.socket = [0x6c, 0, 11] ∧ s.vector ≠ [] :=
    ⟨_, rfl, by decide, List.cons_ne_nil _ _⟩
  obtain ⟨-, -, hparse⟩ := writeSetup_splits hs
  exact ⟨s, hs, hsocket, hparse.trans (if_neg hvector)⟩

/-- A cookie of four bytes, and 20 turns of one byte each. An answer of one word arrives in two
pieces, and the first byte of an event with the second. -/
theorem setUp_trickle :
    ∃ (c : Connecting Empty) (rest : List Arrival),
      (init [.ready [1, 0, 11, 0, 0, 0, 1], .ready [0, 7, 7, 7, 7, 2]]).setUp Input.generous
          (some ⟨[77, 73, 84], [1, 2, 3, 4]⟩) (List.replicate 20 trickle) =
        some (some [1, 0, 11, 0, 0, 0, 1, 0, 7, 7, 7, 7], c) ∧
      c = { (init rest : Connecting Empty) with
        socket := setupBytes (some ⟨[77, 73, 84], [1, 2, 3, 4]⟩) } ∧ streamOf rest = [2] := by
  have hgrants : ∀ size < 2 ^ 32, Input.generous.grants size = true := by
    intro size h
    simp only [Input.generous, decide_eq_true_eq]
    omega
  have hanswered : Answered Input.generous (streamOf
      [.ready [1, 0, 11, 0, 0, 0, 1], .ready [0, 7, 7, 7, 7, 2]]) :=
    ⟨hgrants _ (by norm_num), hgrants _ (by decide), by decide, by decide⟩
  obtain ⟨hsucceeds, -, hset⟩ := setUp_iff (τ := Empty) Input.generous
    (show Arrival.failed ∉ [.ready [1, 0, 11, 0, 0, 0, 1], .ready [0, 7, 7, 7, 7, 2]] by decide)
    (fun turn h => List.eq_of_mem_replicate h ▸ calm_trickle)
    (fun turn h => List.eq_of_mem_replicate h ▸ writes_trickle)
    (show (setupBytes (some ⟨[77, 73, 84], [1, 2, 3, 4]⟩)).length ≤
      (List.replicate 20 trickle).length by decide)
  obtain ⟨setup, c, hsetUp⟩ := hsucceeds.mpr ⟨hanswered, by decide⟩
  obtain ⟨hlength, rest, hstream, -, hc⟩ := hset setup c hsetUp
  have hparts : [1, 0, 11, 0, 0, 0, 1, 0, 7, 7, 7, 7] ++ [2] = setup ++ streamOf rest := hstream
  obtain ⟨rfl, hrest⟩ := List.append_inj hparts hlength.symm
  exact ⟨c, rest, hsetUp, hc, hrest.symm⟩

end Connecting

end Xcb
