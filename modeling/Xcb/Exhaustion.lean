import Xcb.ExtensionCache
import Xcb.RequestHelper
import Xcb.Xid

/-!
# Running out of identifiers

When its range is used up, `xcb_generate_id` asks the server for another one with a request of
XC-MISC. It looks whether there is an answer about XC-MISC, not whether the answer says that the
server has it: if it says no, `xcb_send_request` finds the extension missing and shuts the
connection down.

`xcb_xc_misc_get_xid_range` is generated. What it passes to `xcb_send_request` is what `c_client.py`
makes of `getXidRange`; that description is an assumption on the protocol.

## Main definitions

* `getXidRange` — the description of the request for a range
* `IdClient.generateId` — `xcb_generate_id`, with the extension cache and the request it sends
* `IdClient.Harmless` — nothing is lost but the identifier

## Main results

* `IdClient.harmless_iff` — when running out of identifiers is harmless
-/

namespace Xcb

variable {ε : Type}

/-- The parts of a connection that `xcb_generate_id` uses. -/
structure IdClient (ε : Type) where
  conn : ExtConnection ε
  xid : XcbXid

/-! ### The request for a range -/

/-- `GetXIDRange` has no parameters. This is what is assumed of the description that `c_client.py`
reads; the opcodes and the length are in every request of an extension. -/
def getXidRange : CClient.Request where
  fields := [
    ⟨"major_opcode", .scalar ⟨1, false⟩, false, true, true⟩,
    ⟨"minor_opcode", .scalar ⟨1, false⟩, false, true, true⟩,
    ⟨"length", .scalar ⟨2, false⟩, false, true, true⟩]

/-- A call without arguments. -/
def noArguments : CClient.Arguments where
  elements _ := []
  isNull _ := false

/-- What is on the stack where `xcb_out` begins to live. -/
def stackOf (name : String) : List UInt8 := if name = "length" then [0, 0] else [0]

/-- A single word, which `xcb_send_request` fills in, and no padding. -/
theorem vector_getXidRange :
    getXidRange.vector noArguments stackOf = [.bytes [0, 0, 0, 0], .null 0] := by
  decide

/-- The call of `xcb_send_request` in `xcb_xc_misc_get_xid_range`, when `xcb_get_extension_data`
returns `data`. A function of `c_client.py` that has a reply sends it checked. One word always
fits. -/
def getXidRangeCall (data : Option QueryExtensionReply) : SendCall where
  flags := requestChecked
  vector := getXidRange.vector noArguments stackOf
  ext := some ⟨"XC-MISC", data⟩
  opcode := 1
  isvoid := false
  maximumRequestLength := 1
  count_pos := by
    rw [vector_getXidRange]
    exact List.cons_ne_nil _ _
  header_le := by
    rw [vector_getXidRange]
    exact SendCall.header_le_word requestChecked
  pad_le := by
    rw [vector_getXidRange]
    simp
  aligned := by
    rw [vector_getXidRange]
    simp [Part.len, Part.memory]

/-- `xcb_send_request` takes the call; otherwise it returns `0`. -/
def ExtConnection.accepts (c : ExtConnection ε) (setupMaximum : BitVec 16) (call : SendCall) :
    Bool :=
  !c.hasError && (call.prepare setupMaximum).isSome

/-- `_xcb_conn_shutdown` -/
def ExtConnection.shutdown (c : ExtConnection ε) : ExtConnection ε := { c with hasError := true }

namespace IdClient

/-- The range is used up, and it is not the initial one that has not been set up yet. -/
def UsedUp (xid : XcbXid) : Prop :=
  xid.max - xid.inc + 1 ≤ xid.last ∧ xid.last = xid.max ∧ xid.last ≠ 0

instance (xid : XcbXid) : Decidable (UsedUp xid) := inferInstanceAs (Decidable (_ ∧ _ ∧ _))

/-- `xcb_generate_id` on a connection whose record for XC-MISC has the number `idx`; `answer` is
what the server answers to a `QueryExtension`, and `range` to a `GetXIDRange`. -/
def generateId (c : IdClient ε) (setup : Setup) (idx : ℕ) (ext : ε)
    (answer : ℕ → Option QueryExtensionReply) (range : Option GetXidRangeReply) :
    Option (IdClient ε × Outcome) :=
  if c.conn.hasError = false ∧ UsedUp c.xid then
    (c.conn.getExtensionData idx ext "XC-MISC" answer false).map fun (conn, data) =>
      match data with
      | none =>
        let (xid, outcome) := c.xid.generateId setup ⟨false, false, none⟩
        (⟨conn, xid⟩, outcome)
      | some reply =>
        if conn.accepts 1 (getXidRangeCall (some reply)) then
          let (xid, outcome) := c.xid.generateId setup ⟨false, true, range⟩
          (⟨conn, xid⟩, outcome)
        else
          let (xid, outcome) := c.xid.generateId setup ⟨false, true, none⟩
          (⟨conn.shutdown, xid⟩, outcome)
  else
    let (xid, outcome) := c.xid.generateId setup ⟨c.conn.hasError, false, none⟩
    some (⟨c.conn, xid⟩, outcome)

/-- A client after some calls, in each of which the server answers a `GetXIDRange` with `range`. -/
def calls (setup : Setup) (idx : ℕ) (ext : ε) (answer : ℕ → Option QueryExtensionReply)
    (range : Option GetXidRangeReply) : ℕ → Option (IdClient ε)
  | 0 => some ⟨.init, XcbXid.init setup⟩
  | n + 1 => do
    let (c, _) ← (← calls setup idx ext answer range n).generateId setup idx ext answer range
    pure c

/-- What `xcb_get_extension_data` returns for the record with number `idx`. -/
def extensionReply (c : IdClient ε) (idx : ℕ) (answer : ℕ → Option QueryExtensionReply) :
    Option QueryExtensionReply :=
  match c.conn.slot idx with
  | .none => answer c.conn.queries.length
  | .cookie query => answer query
  | .forced reply => reply

/-- There is no new range: the server does not answer, or does not have the extension, or has no
identifiers left. -/
def NoNewRange (c : IdClient ε) (idx : ℕ) (answer : ℕ → Option QueryExtensionReply)
    (range : Option GetXidRangeReply) : Prop :=
  UsedUp c.xid ∧ ∀ reply ∈ c.extensionReply idx answer, reply.present = true →
    range = none ∨ range = some ⟨0, 1⟩

/-- The call cost nothing but the identifier. -/
structure Harmless (c c' : IdClient ε) : Prop where
  hasError : c'.conn.hasError = false
  xid : c'.xid = c.xid
  later : ∀ setupMaximum call, c.conn.accepts setupMaximum call = true →
    c'.conn.accepts setupMaximum call = true

section

variable {setup : Setup} {idx : ℕ} {ext : ε} {answer : ℕ → Option QueryExtensionReply}
  {range : Option GetXidRangeReply} {c c' : IdClient ε} {outcome : Outcome}

/-- With nothing to get, the allocator stays as it is. -/
theorem generateId_of_usedUp {xid : XcbXid} (husedUp : UsedUp xid) (setup : Setup)
    (call : Surroundings) (hlive : call.hasError = false)
    (hnone : call.extension = true → call.range = none ∨ call.range = some ⟨0, 1⟩) :
    xid.generateId setup call = (xid, .returned XcbXid.failure) := by
  obtain ⟨hend, hlast, hne⟩ := husedUp
  rw [XcbXid.generateId, hlive, if_neg Bool.false_ne_true, if_pos hend, if_neg (not_not.mpr hlast),
    if_neg hne]
  cases hext : call.extension with
  | false => rfl
  | true =>
    rcases hnone hext with hrange | hrange
    · rw [hrange]
      rfl
    · rw [hrange]
      rfl

/-- `xcb_get_extension_data` returns what was or will be answered. -/
theorem getExtensionData_eq {conn : ExtConnection ε} {data : Option QueryExtensionReply}
    (hlive : c.conn.hasError = false) (hpos : 0 < idx)
    (h : c.conn.getExtensionData idx ext "XC-MISC" answer false = some (conn, data)) :
    conn.hasError = false ∧ data = c.extensionReply idx answer := by
  rw [ExtConnection.getExtensionData, if_neg (Bool.eq_false_iff.mp hlive)] at h
  obtain ⟨looked, hlooked, h⟩ := Option.map_eq_some_iff.mp h
  have hcases := (ExtConnection.getLazyreply_cases hpos hlooked).2.2
  have hused := ExtConnection.slot_getLazyreply_ne hpos hlooked
  rw [extensionReply]
  have hlooked : ({ looked with hasError := false } : ExtConnection ε).slot idx = looked.slot idx :=
    rfl
  dsimp only at h
  rw [hlooked] at h
  rcases hcases with ⟨hnone, -, hslot⟩ | ⟨-, -, hslot⟩
  · rw [hslot, if_pos rfl] at h
    cases h
    rw [hnone]
    exact ⟨rfl, rfl⟩
  · rw [hslot] at h hused
    cases hcslot : c.conn.slot idx with
    | none => exact absurd hcslot hused
    | cookie query =>
      rw [hcslot] at h
      cases h
      exact ⟨rfl, rfl⟩
    | forced reply =>
      rw [hcslot] at h
      cases h
      exact ⟨rfl, rfl⟩

/-- The request for a range is taken if the extension is there. -/
theorem accepts_getXidRangeCall {conn : ExtConnection ε} (hlive : conn.hasError = false)
    (reply : QueryExtensionReply) :
    conn.accepts 1 (getXidRangeCall (some reply)) = reply.present := by
  have hraw : hasFlag (getXidRangeCall (some reply)).flags requestRaw = false := by
    show hasFlag requestChecked requestRaw = false
    decide
  have hlonglen : (getXidRangeCall (some reply)).longlen = 1 := by
    simp [SendCall.longlen, getXidRangeCall, vector_getXidRange, Part.len, Part.memory]
  have hlengths : (getXidRangeCall (some reply)).lengths 1 = some (1, 0) := by
    rw [SendCall.lengths, hlonglen]
    rfl
  have hopcodes : (getXidRangeCall (some reply)).opcodes =
      if reply.present then some (reply.majorOpcode, some 1) else none := rfl
  rw [ExtConnection.accepts, hlive, SendCall.prepare]
  simp only [hraw, dite_true, hopcodes, hlengths]
  cases reply.present <;> rfl

/-- **When running out of identifiers is harmless**: unless the server has said that it does not
have XC-MISC. -/
theorem harmless_iff (hpos : 0 < idx) (hlive : c.conn.hasError = false)
    (hnone : c.NoNewRange idx answer range)
    (h : c.generateId setup idx ext answer range = some (c', outcome)) :
    outcome = .returned XcbXid.failure ∧
      (Harmless c c' ↔ ∀ reply ∈ c.extensionReply idx answer, reply.present = true) := by
  obtain ⟨husedUp, hrange⟩ := hnone
  rw [generateId, if_pos ⟨hlive, husedUp⟩] at h
  obtain ⟨⟨conn, data⟩, hdata, h⟩ := Option.map_eq_some_iff.mp h
  obtain ⟨hconn, rfl⟩ := getExtensionData_eq hlive hpos hdata
  have haccepts : ∀ {conn' : ExtConnection ε}, conn'.hasError = false → ∀ setupMaximum call,
      c.conn.accepts setupMaximum call = true → conn'.accepts setupMaximum call = true := by
    intro conn' herror setupMaximum call hcall
    rw [ExtConnection.accepts, herror]
    rw [ExtConnection.accepts, hlive] at hcall
    exact hcall
  cases hreply : c.extensionReply idx answer with
  | none =>
    simp only [hreply, generateId_of_usedUp husedUp setup ⟨false, false, none⟩ rfl nofun] at h
    cases h
    exact ⟨rfl, fun _ => nofun, fun _ => ⟨hconn, rfl, haccepts hconn⟩⟩
  | some reply =>
    simp only [hreply, accepts_getXidRangeCall hconn] at h
    by_cases hpresent : reply.present = true
    · have hxid := generateId_of_usedUp husedUp setup ⟨false, true, range⟩ rfl
        fun _ => hrange reply hreply hpresent
      rw [if_pos hpresent, hxid] at h
      cases h
      refine ⟨rfl, fun _ reply' hreply' => ?_, fun _ => ⟨hconn, rfl, haccepts hconn⟩⟩
      cases hreply'
      exact hpresent
    · have hxid := generateId_of_usedUp husedUp setup ⟨false, true, none⟩ rfl fun _ => .inl rfl
      rw [if_neg hpresent, hxid] at h
      cases h
      exact ⟨rfl, fun hharmless => absurd hharmless.hasError nofun,
        fun hall => absurd (hall reply rfl) hpresent⟩

end

/-- A server that has XC-MISC, and no identifiers. -/
theorem harmless_outOfIds :
    @Harmless Unit ⟨.init, ⟨1, 1, 0x200000, 1⟩⟩
      ⟨⟨false, [.forced (some ⟨true, 136⟩), .none], [((), "XC-MISC")]⟩, ⟨1, 1, 0x200000, 1⟩⟩ :=
  (@harmless_iff Unit ⟨0x200000, 1⟩ 1 () (fun _ => some ⟨true, 136⟩) (some ⟨0, 1⟩) _ _ _
    (by decide) rfl ⟨by decide, fun _ _ _ => .inr rfl⟩ rfl).2.mpr fun reply hreply => by
      cases hreply
      rfl

/-- A server without XC-MISC: the third call loses the connection. -/
theorem not_harmless_missing : ∃ c c' : IdClient Unit,
    calls ⟨0x200000, 1⟩ 1 () (fun _ => some ⟨false, 0⟩) none 2 = some c ∧ c.conn.hasError = false ∧
      c.NoNewRange 1 (fun _ => some ⟨false, 0⟩) none ∧
        c.generateId ⟨0x200000, 1⟩ 1 () (fun _ => some ⟨false, 0⟩) none =
            some (c', .returned XcbXid.failure) ∧ ¬ Harmless c c' := by
  refine ⟨⟨.init, ⟨1, 1, 0x200000, 1⟩⟩,
    ⟨⟨true, [.forced (some ⟨false, 0⟩), .none], [((), "XC-MISC")]⟩, ⟨1, 1, 0x200000, 1⟩⟩,
    rfl, rfl, ⟨by decide, fun _ _ _ => .inl rfl⟩, rfl, fun hharmless => ?_⟩
  exact absurd hharmless.hasError nofun

end IdClient

end Xcb
