import Xcb.Framing

/-!
# The maximum request length: `xcb_out.c`

How long a request may be is in the connection setup. A server with BIG-REQUESTS takes longer ones,
if their length is in an extra word, and says how long in reply to a request of its own, which
XCB sends when the question first comes up. `xcb_send_request` compares the length of a request
with that maximum before it counts the extra word.

## Main definitions

* `MaximumRequestLength` — `c->out.maximum_request_length` and its tag
* `getMaximumRequestLength` — `xcb_get_maximum_request_length`
* `SendCall.prepareLazy` — `xcb_send_request` up to the lock, with this lookup
* `PreparedRequest.Within` — the length on the wire is one the server accepts

## Main results

* `within_iff` — when it is
-/

namespace Xcb

/-! ### The lookup -/

/-- `c->out.maximum_request_length`, with its tag. -/
inductive MaximumRequestLength
  | none
  | cookie
  | forced (value : BitVec 32)
  deriving DecidableEq, Repr

/-- What a call finds: `c->has_error`, what `xcb_get_extension_data` returns for BIG-REQUESTS, and
the maximum in the reply to `BigRequestsEnable` (`none` if there is an error instead). -/
structure LengthSurroundings where
  hasError : Bool
  extension : Option QueryExtensionReply
  reply : Option (BitVec 32)
  deriving DecidableEq, Repr

/-- The words of a `QueryExtension` for BIG-REQUESTS. -/
def queryBigRequestsWords : ℕ := 5

/-- `xcb_prefetch_maximum_request_length`. It does not return when its own `QueryExtension` is
longer than the setup allows: sending that asks for the maximum again, with `reqlenlock` taken. -/
def prefetchMaximumRequestLength (setupMaximum : BitVec 16) (call : LengthSurroundings)
    (length : MaximumRequestLength) : Option MaximumRequestLength :=
  if call.hasError then some length
  else match length with
    | .none =>
      if setupMaximum.toNat < queryBigRequestsWords then none
      else match call.extension with
        | some reply => some (if reply.present then .cookie else .forced (setupMaximum.setWidth 32))
        | none => some (.forced (setupMaximum.setWidth 32))
    | length => some length

/-- `xcb_get_maximum_request_length`. -/
def getMaximumRequestLength (setupMaximum : BitVec 16) (call : LengthSurroundings)
    (length : MaximumRequestLength) : Option (BitVec 32 × MaximumRequestLength) :=
  if call.hasError then some (0, length)
  else do
    match ← prefetchMaximumRequestLength setupMaximum call length with
    | .cookie =>
      let value := call.reply.getD (setupMaximum.setWidth 32)
      pure (value, .forced value)
    | .forced value => pure (value, .forced value)
    | .none => none

/-- `xcb_send_request` up to `pthread_mutex_lock`, as in `SendCall.prepare`. The maximum is looked
up only for a request that is too long for the setup. -/
def SendCall.prepareLazy (call : SendCall) (setupMaximum : BitVec 16) (found : LengthSurroundings)
    (length : MaximumRequestLength) : Option (PreparedRequest × MaximumRequestLength) :=
  if hasFlag call.flags requestRaw = true ∨ call.longlen ≤ setupMaximum.toNat then
    (call.prepare setupMaximum).map fun req => (req, length)
  else do
    let (maximum, length) ← getMaximumRequestLength setupMaximum found length
    let req ← (call.withMaximum maximum).prepare setupMaximum
    pure (req, length)

/-- A maximum that was looked up stays. -/
theorem getMaximumRequestLength_eq {setupMaximum : BitVec 16} {found : LengthSurroundings}
    {length length' : MaximumRequestLength} {maximum : BitVec 32} (hlive : found.hasError = false)
    (h : getMaximumRequestLength setupMaximum found length = some (maximum, length')) :
    length' = .forced maximum := by
  rw [getMaximumRequestLength, hlive, if_neg Bool.false_ne_true] at h
  obtain ⟨fetched, -, h⟩ := Option.bind_eq_some_iff.mp h
  cases fetched with
  | none => cases h
  | cookie =>
    cases h
    rfl
  | forced value =>
    cases h
    rfl

theorem getMaximumRequestLength_forced {setupMaximum : BitVec 16} {found : LengthSurroundings}
    (hlive : found.hasError = false) (value : BitVec 32) :
    getMaximumRequestLength setupMaximum found (.forced value) = some (value, .forced value) := by
  simp [getMaximumRequestLength, prefetchMaximumRequestLength, hlive]

/-! ### What is declared -/

/-- The length a request declares: the 16-bit field or, if that is `0`, the word added to it (`0`
if there is none). -/
def PreparedRequest.declared (req : PreparedRequest) : ℕ :=
  let shortlen := ofBytes ((req.encoding.drop 2).take 2)
  if shortlen = 0 then req.bigLength.toNat else shortlen

/-- The request declares its length, and a server that takes `maximum` words accepts it. -/
structure PreparedRequest.Within (maximum : BitVec 32) (req : PreparedRequest) : Prop where
  ne_zero : req.declared ≠ 0
  le : req.declared ≤ maximum.toNat
  length : req.encoding.length = 4 * req.declared

section declared

variable {call : SendCall} {setupMaximum : BitVec 16} {req : PreparedRequest}

/-- What `prepare` puts into the length fields. -/
theorem declared_of_prepare (hraw : hasFlag call.flags requestRaw = false)
    (h : call.prepare setupMaximum = some req) :
    ∃ shortlen bigLength, call.lengths setupMaximum = some (shortlen, bigLength) ∧
      req.declared = (if shortlen = 0 then bigLength.toNat else shortlen.toNat) ∧
        req.encoding.length = 4 * (call.longlen + if bigLength = 0 then 0 else 1) := by
  obtain ⟨major, minor, shortlen, bigLength, -, hlengths, hbig, hparts⟩ :=
    prepare_eq_some_iff hraw h
  obtain ⟨a, b, c, d, first, rest, hvec⟩ := exists_header hraw
  have hbytes : call.bytes = a :: b :: c :: d :: (first ++ rest.flatten) := by
    rw [SendCall.bytes, hvec]
    rfl
  have hlength := length_bytes hraw
  rw [hbytes] at hlength
  rw [hvec, setHeader_cons] at hparts
  have hshort : ofBytes ((req.encoding.drop 2).take 2) = shortlen.toNat := by
    rw [← ofBytes_bytes16, PreparedRequest.encoding, hparts]
    split <;> rfl
  have hzero : shortlen.toNat = 0 ↔ shortlen = 0 := BitVec.toNat_inj (y := 0)
  refine ⟨shortlen, bigLength, hlengths, ?_, ?_⟩
  · simp only [PreparedRequest.declared, hshort, hzero, hbig]
  · rw [PreparedRequest.encoding, hparts, hbig]
    simp only [List.length_cons, List.length_append] at hlength
    by_cases hzero : bigLength = 0
    · rw [if_neg (not_not.mpr hzero), if_pos hzero]
      simp only [List.flatten_cons, List.length_append, List.length_cons, bytes16, List.length_nil]
      omega
    · rw [if_pos hzero, if_neg hzero]
      simp only [List.flatten_cons, List.length_append, List.length_cons, bytes16, bytes32,
        List.length_nil, List.length_take, List.length_drop]
      omega

/-- A request that the setup allows declares its own length. -/
theorem within_short (hraw : hasFlag call.flags requestRaw = false)
    (hshort : call.longlen ≤ setupMaximum.toNat) (h : call.prepare setupMaximum = some req)
    (maximum : BitVec 32) : req.Within maximum ↔ call.longlen ≤ maximum.toNat := by
  obtain ⟨shortlen, bigLength, hlengths, hdeclared, hlength⟩ := declared_of_prepare hraw h
  have hpos := longlen_pos hraw
  have hnat : (BitVec.ofNat 16 call.longlen).toNat = call.longlen := by
    rw [BitVec.toNat_ofNat, Nat.mod_eq_of_lt (hshort.trans_lt setupMaximum.isLt)]
  have hne : BitVec.ofNat 16 call.longlen ≠ 0 := by
    intro hzero
    rw [hzero] at hnat
    exact hpos.ne hnat
  rw [SendCall.lengths, if_pos hshort] at hlengths
  dsimp only at hlengths
  rw [if_neg hne] at hlengths
  cases hlengths
  rw [if_neg hne, hnat] at hdeclared
  rw [if_pos rfl] at hlength
  refine ⟨fun hwithin => hdeclared ▸ hwithin.le, fun hle => ⟨?_, ?_, ?_⟩⟩
  · rw [hdeclared]
    exact hpos.ne'
  · rw [hdeclared]
    exact hle
  · rw [hlength, hdeclared, Nat.add_zero]

theorem longlen_le_of_prepare (hraw : hasFlag call.flags requestRaw = false)
    (hlong : setupMaximum.toNat < call.longlen) (h : call.prepare setupMaximum = some req) :
    call.longlen ≤ call.maximumRequestLength.toNat := by
  obtain ⟨shortlen, bigLength, hlengths, -⟩ := declared_of_prepare hraw h
  rw [SendCall.lengths, if_neg (Nat.not_le.mpr hlong)] at hlengths
  split at hlengths
  · cases hlengths
  · next haccepted => exact Nat.not_lt.mp haccepted

/-- **A longer one declares one word more** than was compared with the maximum. -/
theorem within_long (hraw : hasFlag call.flags requestRaw = false)
    (hlong : setupMaximum.toNat < call.longlen) (h : call.prepare setupMaximum = some req) :
    req.Within call.maximumRequestLength ↔ call.longlen ≠ call.maximumRequestLength.toNat := by
  obtain ⟨shortlen, bigLength, hlengths, hdeclared, hlength⟩ := declared_of_prepare hraw h
  have hmaximum := call.maximumRequestLength.isLt
  have haccepted := longlen_le_of_prepare hraw hlong h
  rw [SendCall.lengths, if_neg (Nat.not_le.mpr hlong)] at hlengths
  split at hlengths
  · cases hlengths
  · cases hlengths
    rw [if_pos rfl, BitVec.toNat_ofNat] at hdeclared
    constructor
    · rintro ⟨hne, hle, -⟩ heq
      rcases Nat.lt_or_ge (call.longlen + 1) (2 ^ 32) with hlt | hge
      · rw [hdeclared, Nat.mod_eq_of_lt hlt] at hle
        omega
      · -- the length word wraps to `0`
        have hwrap : call.longlen + 1 = 2 ^ 32 := by omega
        rw [hdeclared, hwrap] at hne
        exact hne rfl
    · intro hne
      have hlt : call.longlen + 1 < 2 ^ 32 := by omega
      have hbig : BitVec.ofNat 32 (call.longlen + 1) ≠ 0 := by
        intro hzero
        have hnat := congrArg BitVec.toNat hzero
        rw [BitVec.toNat_ofNat, Nat.mod_eq_of_lt hlt] at hnat
        exact absurd hnat (Nat.succ_ne_zero _)
      rw [Nat.mod_eq_of_lt hlt] at hdeclared
      rw [if_neg hbig] at hlength
      refine ⟨?_, ?_, ?_⟩
      · rw [hdeclared]
        exact Nat.succ_ne_zero _
      · rw [hdeclared]
        omega
      · rw [hdeclared, hlength]

end declared

/-- **When the declared length is one the server accepts**, for a request that was not refused: not
when its words are exactly the maximum, and the extra word makes one more. -/
theorem within_iff {call : SendCall} {setupMaximum : BitVec 16} {found found' : LengthSurroundings}
    {length length' length'' : MaximumRequestLength} {req : PreparedRequest} {maximum : BitVec 32}
    (hraw : hasFlag call.flags requestRaw = false)
    (h : call.prepareLazy setupMaximum found length = some (req, length'))
    (hlive : found'.hasError = false)
    (hmaximum : getMaximumRequestLength setupMaximum found' length' = some (maximum, length'')) :
    req.Within maximum ↔
      (call.longlen ≤ setupMaximum.toNat → call.longlen ≤ maximum.toNat) ∧
        (setupMaximum.toNat < call.longlen → call.longlen ≠ maximum.toNat) := by
  rw [SendCall.prepareLazy, hraw] at h
  by_cases hshort : call.longlen ≤ setupMaximum.toNat
  · rw [if_pos (.inr hshort)] at h
    obtain ⟨req', hreq, heq⟩ := Option.map_eq_some_iff.mp h
    cases heq
    rw [within_short hraw hshort hreq]
    exact ⟨fun hle => ⟨fun _ => hle, fun hlt => absurd hshort (Nat.not_le.mpr hlt)⟩,
      fun hle => hle.1 hshort⟩
  · have hlong := Nat.lt_of_not_le hshort
    rw [if_neg (by simpa using hlong)] at h
    obtain ⟨⟨maximum', fetched⟩, hget, h⟩ := Option.bind_eq_some_iff.mp h
    obtain ⟨req', hreq, heq⟩ := Option.bind_eq_some_iff.mp h
    cases heq
    have haccepted : (call.withMaximum maximum').longlen ≤ maximum'.toNat :=
      longlen_le_of_prepare hraw hlong hreq
    have hlive' : found.hasError = false := by
      -- on a dead connection the maximum is `0`, and nothing is accepted
      by_contra herror
      rw [getMaximumRequestLength, if_pos (Bool.not_eq_false _ ▸ herror)] at hget
      cases hget
      exact absurd haccepted (Nat.not_le.mpr (Nat.zero_lt_of_lt hlong))
    obtain rfl := getMaximumRequestLength_eq hlive' hget
    rw [getMaximumRequestLength_forced hlive] at hmaximum
    cases hmaximum
    have hwithin := @within_long (call.withMaximum maximum) setupMaximum req hraw hlong hreq
    exact hwithin.trans
      ⟨fun hne => ⟨fun hle => absurd hle hshort, fun _ => hne⟩, fun hne => hne.2 hlong⟩

/-- What a call finds on a server that takes requests of `maximum` words. -/
def bigRequests (maximum : BitVec 32) : LengthSurroundings :=
  ⟨false, some ⟨true, 133⟩, some maximum⟩

/-- A call that is too long for the setup looks the maximum up. -/
theorem prepareLazy_bigRequests {call : SendCall} {setupMaximum : BitVec 16} {maximum : BitVec 32}
    {req : PreparedRequest} (hsetup : queryBigRequestsWords ≤ setupMaximum.toNat)
    (hraw : hasFlag call.flags requestRaw = false) (hlong : setupMaximum.toNat < call.longlen)
    (hreq : (call.withMaximum maximum).prepare setupMaximum = some req) :
    call.prepareLazy setupMaximum (bigRequests maximum) .none = some (req, .forced maximum) := by
  have hget : getMaximumRequestLength setupMaximum (bigRequests maximum) .none =
      some (maximum, .forced maximum) := by
    simp [getMaximumRequestLength, prefetchMaximumRequestLength, bigRequests, Nat.not_lt.mpr hsetup]
  rw [SendCall.prepareLazy, hraw, if_neg (by simpa using hlong), hget]
  simp [hreq]

/-- A request of 65536 words, one more than the setup allows. -/
theorem within_bigRequests : ∃ req, (zeroCall 0x10000 (Nat.succ_pos _)).prepareLazy 0xffff
    (bigRequests 0x3fffff) .none = some (req, .forced 0x3fffff) ∧ req.Within 0x3fffff := by
  have hraw := not_raw_zeroCall 0x10000 (Nat.succ_pos _)
  have hlonglen := longlen_zeroCall 0x10000 (Nat.succ_pos _)
  obtain ⟨req, hreq⟩ :=
    @exists_prepare_zeroCall 0x10000 (Nat.succ_pos _) 0xffff 0x3fffff (by decide)
  generalize zeroCall 0x10000 (Nat.succ_pos _) = call at hraw hlonglen hreq
  have hlong : (0xffff : BitVec 16).toNat < call.longlen := by
    rw [hlonglen]
    decide
  have hlazy := prepareLazy_bigRequests (by decide) hraw hlong hreq
  refine ⟨req, hlazy, (within_iff hraw hlazy (show (bigRequests 0x3fffff).hasError = false from rfl)
    rfl).mpr ⟨fun hshort => absurd hshort (Nat.not_le.mpr hlong), fun _ => ?_⟩⟩
  rw [hlonglen]
  decide

/-- A request of exactly the maximum is accepted, whatever the maximum. -/
theorem exists_not_within {setupMaximum : BitVec 16} {maximum : BitVec 32}
    (hsetup : queryBigRequestsWords ≤ setupMaximum.toNat)
    (hlong : setupMaximum.toNat < maximum.toNat) :
    ∃ (call : SendCall) (req : PreparedRequest), hasFlag call.flags requestRaw = false ∧
      call.prepareLazy setupMaximum (bigRequests maximum) .none = some (req, .forced maximum) ∧
        ¬ req.Within maximum := by
  have hpos : 0 < maximum.toNat := Nat.zero_lt_of_lt hlong
  obtain ⟨req, hreq⟩ : ∃ req, ((zeroCall maximum.toNat hpos).withMaximum maximum).prepare
      setupMaximum = some req := exists_prepare_zeroCall hpos (Nat.le_refl _)
  have hraw := not_raw_zeroCall maximum.toNat hpos
  have hlonglen := longlen_zeroCall maximum.toNat hpos
  refine ⟨zeroCall maximum.toNat hpos, req, hraw,
    prepareLazy_bigRequests hsetup hraw (by rw [hlonglen]; exact hlong) hreq, fun hwithin => ?_⟩
  have hwithin' := @within_long ((zeroCall maximum.toNat hpos).withMaximum maximum) setupMaximum req
    hraw (hlonglen.symm ▸ hlong) hreq
  exact hwithin'.mp hwithin hlonglen

/-- A `NoOperation` of exactly the maximum of BIG-REQUESTS is accepted and declares one word
more. -/
theorem not_within_maximum :
    ∃ (call : SendCall) (req : PreparedRequest), hasFlag call.flags requestRaw = false ∧
      call.prepareLazy 0xffff (bigRequests 0x3fffff) .none = some (req, .forced 0x3fffff) ∧
        getMaximumRequestLength 0xffff (bigRequests 0x3fffff) (.forced 0x3fffff) =
            some (0x3fffff, .forced 0x3fffff) ∧
          ¬ req.Within 0x3fffff := by
  obtain ⟨call, req, hraw, hprepare, hnot⟩ :
      ∃ (call : SendCall) (req : PreparedRequest), hasFlag call.flags requestRaw = false ∧
        call.prepareLazy 0xffff (bigRequests 0x3fffff) .none = some (req, .forced 0x3fffff) ∧
          ¬ req.Within 0x3fffff := exists_not_within (by decide) (by decide)
  exact ⟨call, req, hraw, hprepare, getMaximumRequestLength_forced rfl 0x3fffff, hnot⟩

end Xcb
