import Xcb.Session

/-!
# True sequence numbers

The counters of a connection stand for naturals: the number of requests so far, the number of the
request read last. This file says what the operations on counters do to the naturals, inside the
windows in which they do anything sensible.

## Main results

* `sequenceCompare_ofNat`, `sequenceCompare32_ofNat` — the two comparison macros
* `widenRequest_ofNat` — the 32 bits of a caller determine the number of its request
* `widenSequence_ofNat` — the 16-bit number of a packet determines its number among the 65536 that
  start at the last one read
* `numberRequest_fst`, `numberRequest_snd_le` — what a request does to the counters and to the
  pending entries, in terms of how many `GetInputFocus` were inserted before it
* `numberRequest_snd_le_one` — when it is not more than one
-/

namespace Xcb

variable {τ β : Type}

/-! ### Comparisons -/

theorem sequenceCompare_ofNat {m n : ℕ} (hlo : n ≤ m + 2 ^ 63) (hhi : m < n + 2 ^ 63) :
    sequenceCompare (BitVec.ofNat 64 m) (BitVec.ofNat 64 n) = (m : ℤ) - n :=
  Serial.dist_ofNat (by norm_num) hlo hhi

theorem sequenceCompare32_ofNat {m n : ℕ}
    (h : Serial.Fits (BitVec.ofNat 32 m) (BitVec.ofNat 32 n)) (hlo : n ≤ m + 2 ^ 31)
    (hhi : m < n + 2 ^ 31) :
    sequenceCompare32 (BitVec.ofNat 32 m) (BitVec.ofNat 32 n) = (m : ℤ) - n :=
  h.toInt_sub_toInt (by norm_num) hlo hhi

/-- A difference below the whole range survives in the counters. -/
theorem toNat_ofNat_sub {m n : ℕ} (hle : n ≤ m) (hlt : m < n + 2 ^ 64) :
    (BitVec.ofNat 64 m - BitVec.ofNat 64 n).toNat = m - n := by
  obtain ⟨d, rfl⟩ := Nat.exists_eq_add_of_le hle
  rw [BitVec.ofNat_add, BitVec.add_comm, BitVec.add_sub_cancel, BitVec.toNat_ofNat,
    Nat.mod_eq_of_lt (by omega)]
  omega

theorem ofNat_sub_one {n : ℕ} (h : 0 < n) : BitVec.ofNat 64 n - 1 = BitVec.ofNat 64 (n - 1) := by
  obtain ⟨m, rfl⟩ := Nat.exists_eq_add_of_le' h
  rw [Nat.add_sub_cancel, BitVec.ofNat_add]
  exact BitVec.add_sub_cancel _ _

/-! ### Widening the number of a packet -/

/-- Replacing the low `w` bits. -/
theorem mask_or_ofNat {w : ℕ} {mask : BitVec 64}
    (hmask : ∀ i : Fin 64, mask.getLsbD i = decide (w ≤ (i : ℕ))) (m n : ℕ) :
    (BitVec.ofNat 64 m &&& mask) ||| (BitVec.ofNat w n).setWidth 64 =
      BitVec.ofNat 64 (2 ^ w * (m / 2 ^ w) + n % 2 ^ w) := by
  refine BitVec.eq_of_getLsbD_eq fun i hi => ?_
  have hn : n % 2 ^ w < 2 ^ w := Nat.mod_lt _ (by positivity)
  rw [BitVec.getLsbD_or, BitVec.getLsbD_and, hmask ⟨i, hi⟩, BitVec.getLsbD_setWidth,
    BitVec.getLsbD_ofNat, BitVec.getLsbD_ofNat, BitVec.getLsbD_ofNat,
    Nat.testBit_two_pow_mul_add _ hn, Nat.testBit_mod_two_pow, Nat.testBit_div_two_pow]
  by_cases hlow : i < w
  · simp [hi, hlow, Nat.not_le.mpr hlow]
  · have hle : w ≤ i := Nat.not_lt.mp hlow
    simp [hi, hlow, hle]

/-- **Widening.** Among the 65536 numbers from the last one read on, the low 16 bits determine the
number. -/
theorem widenSequence_ofNat {lastread number : ℕ} (hle : lastread ≤ number)
    (hlt : number < lastread + 2 ^ 16) :
    widenSequence (BitVec.ofNat 64 lastread) (BitVec.ofNat 16 number) =
      BitVec.ofNat 64 number := by
  have hread := Nat.div_add_mod lastread (2 ^ 16)
  have hnum := Nat.div_add_mod number (2 ^ 16)
  have hr := Nat.mod_lt lastread (show 2 ^ 16 > 0 by norm_num)
  have hn := Nat.mod_lt number (show 2 ^ 16 > 0 by norm_num)
  have hmask : ∀ i : Fin 64,
      (0xffffffffffff0000 : BitVec 64).getLsbD i = decide (16 ≤ (i : ℕ)) := by decide
  simp only [widenSequence, mask_or_ofNat hmask]
  -- either the carry out of the low bits happened between the two numbers, or it did not
  rcases Nat.lt_or_ge (lastread / 2 ^ 16) (number / 2 ^ 16) with hcarry | hcarry
  · have hdiv : number / 2 ^ 16 = lastread / 2 ^ 16 + 1 := by omega
    rw [sequenceCompare_ofNat (by omega) (by omega), if_pos (by omega)]
    rw [show (0x10000 : BitVec 64) = BitVec.ofNat 64 (2 ^ 16) from rfl, ← BitVec.ofNat_add]
    congr 1
    omega
  · have hdiv : number / 2 ^ 16 = lastread / 2 ^ 16 := by
      have := Nat.div_le_div_right (c := 2 ^ 16) hle
      omega
    rw [sequenceCompare_ofNat (by omega) (by omega), if_neg (by omega)]
    congr 1
    omega

/-- Among the `2 ^ 32` numbers up to the last one given, the low 32 bits determine the number. -/
theorem widenRequest_ofNat {number last : ℕ} (hle : number ≤ last)
    (hlt : last < number + 2 ^ 32) :
    widenRequest (BitVec.ofNat 64 last) (BitVec.ofNat 32 number) = BitVec.ofNat 64 number := by
  have hmask : ∀ i : Fin 64,
      (0xffffffff00000000 : BitVec 64).getLsbD i = decide (32 ≤ (i : ℕ)) := by decide
  have hl := Nat.div_add_mod last (2 ^ 32)
  have hnum := Nat.div_add_mod number (2 ^ 32)
  have hlmod := Nat.mod_lt last (show 2 ^ 32 > 0 by norm_num)
  have hnmod := Nat.mod_lt number (show 2 ^ 32 > 0 by norm_num)
  simp only [widenRequest, mask_or_ofNat hmask]
  -- both numbers have the same upper half, so that the lower one decides
  have hlower : BitVec.ofNat 64 last <
    BitVec.ofNat 64 (2 ^ 32 * (last / 2 ^ 32) + number % 2 ^ 32) ↔
      last % 2 ^ 32 < number % 2 ^ 32 := by
    rw [BitVec.lt_def, BitVec.toNat_ofNat, BitVec.toNat_ofNat]
    omega
  rcases Nat.lt_or_ge (number / 2 ^ 32) (last / 2 ^ 32) with hborrow | hborrow
  · have hdiv : last / 2 ^ 32 = number / 2 ^ 32 + 1 := by omega
    rw [if_pos (hlower.mpr (by omega))]
    rw [show 2 ^ 32 * (last / 2 ^ 32) + number % 2 ^ 32 = number + 2 ^ 32 by omega,
      BitVec.ofNat_add]
    exact BitVec.add_sub_cancel _ _
  · have hdiv : last / 2 ^ 32 = number / 2 ^ 32 := by
      have := Nat.div_le_div_right (c := 2 ^ 32) hle
      omega
    rw [if_neg (by rw [hlower]; omega)]
    congr 1
    omega

/-! ### Numbering -/

/-- The entries of the `GetInputFocus` requests numbered from `number` on. -/
def pendingSyncs (number : BitVec 64) : ℕ → List PendingReply
  | 0 => []
  | count + 1 => ⟨number, number, .none, requestDiscardReply⟩ :: pendingSyncs (number + 1) count

theorem flags_of_mem_pendingSyncs {number : BitVec 64} {count : ℕ} {pend : PendingReply}
    (h : pend ∈ pendingSyncs number count) : pend.flags = requestDiscardReply := by
  induction count generalizing number with
  | zero => cases h
  | succ count ih =>
    rcases List.mem_cons.mp h with rfl | h
    · rfl
    · exact ih h

/-- The entry of a request, if it gets one. -/
def PreparedRequest.pending (req : PreparedRequest) (number : BitVec 64) : List PendingReply :=
  if req.workaround ≠ .none ∨ req.flags ≠ 0 then
    [⟨number, number, req.workaround, req.flags⟩]
  else []

theorem syncLoop_snd_le (isvoid : Bool) (fuel : ℕ) (c : XcbConnection τ β) :
    (c.syncLoop isvoid fuel).2 ≤ fuel := by
  induction fuel generalizing c with
  | zero => exact Nat.le_refl 0
  | succ fuel ih =>
    simp only [XcbConnection.syncLoop]
    split
    · exact Nat.succ_le_succ (ih _)
    · exact Nat.zero_le _

/-- What the loop does to a connection is determined by the number of its turns. -/
theorem syncLoop_fst (isvoid : Bool) (fuel : ℕ) (c : XcbConnection τ β) :
    (c.syncLoop isvoid fuel).1 =
      { c with
        inp := { c.inp with
          requestExpected := if (c.syncLoop isvoid fuel).2 = 0 then c.inp.requestExpected
            else c.out.request + BitVec.ofNat 64 (c.syncLoop isvoid fuel).2 - 1
          pendingReplies := c.inp.pendingReplies ++
            pendingSyncs c.out.request (c.syncLoop isvoid fuel).2 }
        out := { c.out with
          request := c.out.request + BitVec.ofNat 64 (c.syncLoop isvoid fuel).2 } } := by
  induction fuel generalizing c with
  | zero => simp [XcbConnection.syncLoop, pendingSyncs]
  | succ fuel ih =>
    simp only [XcbConnection.syncLoop]
    split
    · rw [ih]
      generalize (c.insertSync.syncLoop isvoid fuel).2 = count
      have hadd : c.out.request + BitVec.ofNat 64 (count + 1) =
          c.out.request + 1 + BitVec.ofNat 64 count := by
        rw [Nat.add_comm, BitVec.ofNat_add, BitVec.add_assoc]
        rfl
      cases count with
      | zero => simp [XcbConnection.insertSync, XcbIn.expectReply, pendingSyncs]
      | succ count => simp [hadd, XcbConnection.insertSync, XcbIn.expectReply, pendingSyncs]
    · simp [pendingSyncs]

/-- After two turns at most the loop is done: the second one is only made for number `0`. -/
theorem needsSync_syncLoop (isvoid : Bool) (c : XcbConnection τ β) :
    (c.syncLoop isvoid 2).1.needsSync isvoid = false := by
  have hne : ∀ r : BitVec 64, r + 1#64 ≠ r + 65536#64 - 1#64 := by
    intro r
    bv_omega
  cases h0 : c.needsSync isvoid with
  | false => simp [XcbConnection.syncLoop, h0]
  | true =>
    cases h1 : c.insertSync.needsSync isvoid with
    | false => simp [XcbConnection.syncLoop, h0, h1]
    | true =>
      -- the second turn can only have been made because the number was `0`
      have hzero : c.out.request + 1#64 = 0#64 := by
        simpa [XcbConnection.needsSync, XcbConnection.insertSync, hne] using h1
      have hsecond : (c.syncLoop isvoid 2).1 = c.insertSync.insertSync := by
        simp [XcbConnection.syncLoop, h0, h1]
      rw [hsecond]
      simp [XcbConnection.needsSync, XcbConnection.insertSync, hzero]

/-- **Numbering.** All that a request does to the connection before it is written, given how many
`GetInputFocus` requests are inserted. -/
theorem numberRequest_fst (c : XcbConnection τ β) (req : PreparedRequest) :
    (c.numberRequest req).1 =
      { c with
        inp := { c.inp with
          requestExpected :=
            if req.isvoid = false then
              c.out.request + BitVec.ofNat 64 ((c.numberRequest req).2 + 1)
            else if (c.numberRequest req).2 = 0 then c.inp.requestExpected
            else c.out.request + BitVec.ofNat 64 (c.numberRequest req).2
          pendingReplies := c.inp.pendingReplies ++
            pendingSyncs (c.out.request + 1) (c.numberRequest req).2 ++
            req.pending (c.out.request + BitVec.ofNat 64 ((c.numberRequest req).2 + 1)) }
        out := { c.out with
          request := c.out.request + BitVec.ofNat 64 ((c.numberRequest req).2 + 1) } } := by
  simp only [XcbConnection.numberRequest, XcbConnection.expectRequest, syncLoop_fst]
  generalize (c.nextRequest.syncLoop req.isvoid 2).2 = count
  simp only [XcbConnection.nextRequest]
  have hadd : c.out.request + 1 + BitVec.ofNat 64 count =
      c.out.request + BitVec.ofNat 64 (count + 1) := by
    rw [Nat.add_comm count, BitVec.ofNat_add, BitVec.add_assoc]
    rfl
  have hsub : c.out.request + 1 + BitVec.ofNat 64 count - 1 =
      c.out.request + BitVec.ofNat 64 count := by
    bv_omega
  rw [hsub, hadd]
  by_cases hpend : req.workaround ≠ .none ∨ req.flags ≠ 0
  · simp only [PreparedRequest.pending, if_pos hpend, XcbIn.expectReply]
    cases req.isvoid <;> simp
  · simp only [PreparedRequest.pending, if_neg hpend, List.append_nil]
    cases req.isvoid <;> simp

theorem numberRequest_snd_le (c : XcbConnection τ β) (req : PreparedRequest) :
    (c.numberRequest req).2 ≤ 2 :=
  syncLoop_snd_le _ 2 _

/-- How many are inserted depends on two counters only. -/
theorem numberRequest_snd_congr {c d : XcbConnection τ β}
    (hrequest : c.out.request = d.out.request)
    (hexpected : c.inp.requestExpected = d.inp.requestExpected) (req : PreparedRequest) :
    (c.numberRequest req).2 = (d.numberRequest req).2 := by
  have hneeds : ∀ {c d : XcbConnection τ β}, c.out.request = d.out.request →
      c.inp.requestExpected = d.inp.requestExpected →
      c.needsSync req.isvoid = d.needsSync req.isvoid := by
    intro c d hrequest hexpected
    rw [XcbConnection.needsSync, XcbConnection.needsSync, hrequest, hexpected]
  have hloop : ∀ (fuel : ℕ) {c d : XcbConnection τ β}, c.out.request = d.out.request →
      c.inp.requestExpected = d.inp.requestExpected →
      (c.syncLoop req.isvoid fuel).2 = (d.syncLoop req.isvoid fuel).2 := by
    intro fuel
    induction fuel with
    | zero => exact fun _ _ => rfl
    | succ fuel ih =>
      intro c d hrequest hexpected
      simp only [XcbConnection.syncLoop, hneeds hrequest hexpected]
      split
      · have hnext : c.insertSync.out.request = d.insertSync.out.request :=
          congrArg (· + 1) hrequest
        exact congrArg (· + 1) (ih hnext hrequest)
      · rfl
  have hnext : c.nextRequest.out.request = d.nextRequest.out.request := congrArg (· + 1) hrequest
  exact hloop 2 hnext hexpected

/-- None is inserted only where none is due. -/
theorem numberRequest_snd_eq_zero_iff (c : XcbConnection τ β) (req : PreparedRequest) :
    (c.numberRequest req).2 = 0 ↔ c.nextRequest.needsSync req.isvoid = false := by
  cases h : c.nextRequest.needsSync req.isvoid <;>
    simp [XcbConnection.numberRequest, XcbConnection.syncLoop, h]

/-! ### Two `GetInputFocus` at once -/

/-- The state in which a void request inserts two `GetInputFocus`: the first because 65535
requests in a row asked for no answer, and the second because the next number is `0`. -/
def XcbConnection.DoubleSync (c : XcbConnection τ β) (isvoid : Bool) : Prop :=
  isvoid = true ∧ c.out.request = -2 ∧ c.inp.requestExpected = -65536

instance (c : XcbConnection τ β) (isvoid : Bool) : Decidable (c.DoubleSync isvoid) :=
  inferInstanceAs (Decidable (_ ∧ _))

/-- The second turn of the loop. -/
theorem doubleSync_of_needsSync {c : XcbConnection τ β} {isvoid : Bool}
    (h : c.nextRequest.needsSync isvoid = true)
    (h' : c.nextRequest.insertSync.needsSync isvoid = true) : c.DoubleSync isvoid := by
  have hne : ∀ r : BitVec 64, r + 1#64 ≠ r + 65536#64 - 1#64 := by
    intro r
    bv_omega
  simp only [XcbConnection.needsSync, XcbConnection.insertSync, XcbConnection.nextRequest,
    Bool.or_eq_true, Bool.and_eq_true, beq_iff_eq] at h h'
  have hzero : c.out.request + 1 + 1 = 0 := h'.resolve_left fun h'' => hne _ h''.2
  obtain ⟨hvoid, hsync⟩ := h.resolve_right fun hz => by
    rw [hz] at hzero
    exact absurd hzero (by decide)
  change c.out.request + 1#64 = c.inp.requestExpected + 65536#64 - 1#64 at hsync
  exact ⟨hvoid, by bv_omega, by bv_omega⟩

/-- Otherwise at most one is inserted. -/
theorem numberRequest_snd_le_one {c : XcbConnection τ β} {req : PreparedRequest}
    (h : ¬ c.DoubleSync req.isvoid) : (c.numberRequest req).2 ≤ 1 := by
  cases h0 : c.nextRequest.needsSync req.isvoid with
  | false => simp [XcbConnection.numberRequest, XcbConnection.syncLoop, h0]
  | true =>
    cases h1 : c.nextRequest.insertSync.needsSync req.isvoid with
    | false => simp [XcbConnection.numberRequest, XcbConnection.syncLoop, h0, h1]
    | true => exact absurd (doubleSync_of_needsSync h0 h1) h

theorem numberRequest_snd_of_doubleSync {c : XcbConnection τ β} {req : PreparedRequest}
    (h : c.DoubleSync req.isvoid) : (c.numberRequest req).2 = 2 := by
  obtain ⟨hvoid, hreq, hexp⟩ := h
  simp [XcbConnection.numberRequest, XcbConnection.syncLoop, XcbConnection.needsSync,
    XcbConnection.insertSync, XcbConnection.nextRequest, hvoid, hreq, hexp]

end Xcb
