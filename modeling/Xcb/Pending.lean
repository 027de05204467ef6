import Xcb.Internal.Keyed
import Xcb.Delivery

/-!
# The list of pending replies

Without handoffs an entry of `pending_replies` stands for one number, and the list has increasing
numbers. That is what the walk in `discard_reply` relies on, and what it keeps.

## Main definitions

* `Session.Entered` — `pending_replies` has increasing numbers, none below `request_read`
* `Session.Current` — a cookie that is close to all live requests
* `Session.Discardable` — one whose low bits are close to theirs as `int`s, too

## Main results

* `Entered.read` — the list after a packet
* `Entered.discardReply` — the three cases of `discard_reply`
-/

namespace Xcb

open Ranges (Range)

variable {τ α : Type}

/-! ### Entries for one request -/

/-- The entry that `insert_pending_discard` makes. -/
def discardRange (n : ℕ) : Range Handling := ⟨n, some n, ⟨.none, requestDiscardReply⟩⟩

/-- `pend->flags |= XCB_REQUEST_DISCARD_REPLY` -/
def discardMark (r : Range Handling) : Range Handling :=
  { r with value := { r.value with flags := r.value.flags ||| requestDiscardReply } }

@[simp] theorem first_discardRange (n : ℕ) : (discardRange n).first = n := rfl

@[simp] theorem first_discardMark (r : Range Handling) : (discardMark r).first = r.first := rfl

/-- The entry of request `n` is marked, or made. -/
def markRange (n : ℕ) (rs : List (Range Handling)) : List (Range Handling) :=
  Keyed.upsert Range.first n (discardRange n) discardMark rs

theorem pendingOf_discardMark (r : Range Handling) :
    pendingOf (discardMark r) = (pendingOf r).discard := by
  cases h : r.last <;> simp [pendingOf, discardMark, PendingReply.discard, h]

theorem hasFlag_or (flags : Flags) :
    hasFlag (flags ||| requestDiscardReply) requestDiscardReply = true := by
  have hne : (flags ||| requestDiscardReply) &&& requestDiscardReply ≠ 0 := by
    intro h
    have hbit := congrArg (fun v : BitVec 32 => v.getLsbD 2) h
    simp [requestDiscardReply] at hbit
  simpa [hasFlag] using hne

/-- Entries for one number each, between two bounds. -/
structure Single (low high : ℕ) (rs : List (Range Handling)) : Prop where
  last : ∀ r ∈ rs, r.last = some r.first
  increasing : Keyed.Increasing Range.first rs
  owned : ∀ r ∈ rs, r.value.workaround ≠ .externalSocketOwner
  low : ∀ r ∈ rs, low ≤ r.first
  high : ∀ r ∈ rs, r.first ≤ high

namespace Single

variable {low high n : ℕ} {rs : List (Range Handling)}

theorem tail {r : Range Handling} (h : Single low high (r :: rs)) : Single low high rs :=
  ⟨fun q hq => h.last q (List.mem_cons_of_mem r hq), (List.pairwise_cons.mp h.increasing).2,
    fun q hq => h.owned q (List.mem_cons_of_mem r hq),
    fun q hq => h.low q (List.mem_cons_of_mem r hq),
    fun q hq => h.high q (List.mem_cons_of_mem r hq)⟩

theorem pendingOf_head {r : Range Handling} (h : Single low high (r :: rs)) :
    pendingOf r = ⟨BitVec.ofNat 64 r.first, BitVec.ofNat 64 r.first, r.value.workaround,
      r.value.flags⟩ := by
  simp [pendingOf, h.last r List.mem_cons_self]

/-- Retiring is forgetting the numbers up to the one that is completed. -/
theorem retire_eq (h : Single low high rs) (n : ℕ) :
    Ranges.retire n rs = rs.filter fun r => n < r.first := by
  rw [← h.increasing.dropWhile_le, Ranges.retire]
  induction rs with
  | nil => rfl
  | cons r rs ih =>
    rw [List.dropWhile_cons, List.dropWhile_cons, h.last r List.mem_cons_self, Option.any_some,
      ih h.tail]

theorem filter (h : Single low high rs) {low' : ℕ} (p : Range Handling → Bool)
    (hlow : ∀ r ∈ rs, p r = true → low' ≤ r.first) : Single low' high (rs.filter p) := by
  have hmem : ∀ {r}, r ∈ rs.filter p → r ∈ rs := fun hr => (List.mem_filter.mp hr).1
  exact ⟨fun r hr => h.last r (hmem hr), h.increasing.filter p, fun r hr => h.owned r (hmem hr),
    fun r hr => hlow r (hmem hr) (List.mem_filter.mp hr).2, fun r hr => h.high r (hmem hr)⟩

theorem markRange (h : Single low high rs) (hlow : low ≤ n) (hhigh : n ≤ high) :
    Single low high (markRange n rs) := by
  have hcases : ∀ {P : Range Handling → Prop}, (∀ r ∈ rs, P r) → P (discardRange n) →
      (∀ r ∈ rs, P r → P (discardMark r)) → ∀ r ∈ Xcb.markRange n rs, P r := by
    intro P hold hnew hmark r hr
    rcases Keyed.mem_upsert hr with rfl | hr | ⟨q, hq, -, rfl⟩
    · exact hnew
    · exact hold r hr
    · exact hmark q hq (hold q hq)
  refine ⟨hcases h.last rfl fun r _ hr => hr,
    h.increasing.upsert (first_discardRange n) first_discardMark,
    hcases h.owned nofun fun r _ hr => hr, hcases h.low hlow fun r _ hr => hr,
    hcases h.high hhigh fun r _ hr => hr⟩

/-- The walk at the end of `discard_reply`. -/
theorem markDiscard (h : Single low high rs)
    (hnear : ∀ r ∈ rs, n < r.first + 2 ^ 31 ∧ r.first < n + 2 ^ 31)
    (hfits : ∀ r ∈ rs, Serial.Fits (BitVec.ofNat 32 n) (BitVec.ofNat 32 r.first)) :
    markDiscard (BitVec.ofNat 32 n) (BitVec.ofNat 64 n) (rs.map pendingOf) =
      (Xcb.markRange n rs).map pendingOf := by
  induction rs with
  | nil => rfl
  | cons r rs ih =>
    obtain ⟨hlo, hhi⟩ := hnear r List.mem_cons_self
    have hcompare : sequenceCompare32 (low32 (pendingOf r).firstRequest) (BitVec.ofNat 32 n) =
        (r.first : ℤ) - n := by
      rw [h.pendingOf_head, low32_ofNat]
      exact sequenceCompare32_ofNat ((hfits r List.mem_cons_self).symm (by norm_num) hhi hlo)
        hlo.le hhi
    simp only [List.map_cons, Xcb.markDiscard, hcompare, Xcb.markRange, Keyed.upsert]
    by_cases hlt : n < r.first
    · rw [if_pos (by omega), if_pos hlt]
      rfl
    · rw [if_neg (by omega), if_neg hlt]
      by_cases heq : r.first = n
      · rw [if_pos (by omega), if_pos heq, List.map_cons, pendingOf_discardMark]
      · rw [if_neg (by omega), if_neg heq, List.map_cons,
          ih h.tail (fun q hq => hnear q (List.mem_cons_of_mem r hq)) fun q hq =>
            hfits q (List.mem_cons_of_mem r hq)]
        rfl

/-- Only the head can cover the lowest number. -/
theorem covers_head {r : Range Handling} (h : Single low high (r :: rs)) (hlow : n ≤ r.first)
    (hnear : r.first < n + 2 ^ 63) :
    (pendingOf r).covers (BitVec.ofNat 64 n) = decide (r.first = n) := by
  have hiff : r.first ≤ n ↔ r.first = n := by omega
  rw [h.pendingOf_head]
  simp [PendingReply.covers, sequenceCompare_ofNat (show n ≤ r.first + 2 ^ 63 by omega) hnear,
    sequenceCompare_ofNat (show r.first ≤ n + 2 ^ 63 by omega) (show n < r.first + 2 ^ 63 by omega),
    hiff, hlow]

/-- The head is marked, or a new one put before it. -/
theorem markHead (h : Single n high rs) (hnear : ∀ r ∈ rs, r.first < n + 2 ^ 63) :
    (match rs.map pendingOf with
      | pend :: next =>
        if pend.covers (BitVec.ofNat 64 n) then pend.discard :: next
        else pendingDiscard (BitVec.ofNat 64 n) :: pend :: next
      | [] => [pendingDiscard (BitVec.ofNat 64 n)]) = (Xcb.markRange n rs).map pendingOf := by
  cases rs with
  | nil => rfl
  | cons r rs =>
    have hlow := h.low r List.mem_cons_self
    simp only [List.map_cons, h.covers_head hlow (hnear r List.mem_cons_self), Xcb.markRange,
      Keyed.upsert]
    by_cases heq : r.first = n
    · rw [if_pos (by simpa using heq), if_neg (by omega), if_pos heq, List.map_cons,
        pendingOf_discardMark]
    · rw [if_neg (by simpa using heq), if_pos (by omega)]
      rfl

end Single

theorem increasing_entriesOf (n : ℕ) (requests : List Request) :
    Keyed.Increasing Range.first (entriesOf n requests) := by
  induction requests generalizing n with
  | nil => exact .nil
  | cons q requests ih =>
    simp only [entriesOf]
    split
    · refine List.pairwise_cons.mpr ⟨?_, ih (n + 1)⟩
      intro r hr
      obtain ⟨i, -, -, -, rfl⟩ := mem_entriesOf hr
      show n < n + 1 + i
      omega
    · exact ih (n + 1)

namespace Session

variable {s t : Session} {n m : ℕ} {rs : List (Range Handling)} {p : Packet Stamp}
  {wire : List (Packet Stamp)}

/-! ### The list, at every step -/

/-- `pending_replies` has one entry a number, none below the request that is being read. -/
structure Entered (s : Session) (rs : List (Range Handling)) : Prop extends Stamped s where
  pending : s.conn.inp.pendingReplies = rs.map pendingOf
  single : Single s.lastRead s.requests.length rs

/-- Requests are numbered, and some get entries. -/
theorem Entered.append (h : s.Entered rs) (ht : t.Stamped) {new : List Request}
    (hnew : t.requests = s.requests ++ new)
    (hwork : ∀ q ∈ new, q.workaround ≠ .externalSocketOwner) (hreads : t.reads = s.reads)
    (hpending : t.conn.inp.pendingReplies = s.conn.inp.pendingReplies ++
      (entriesOf (s.requests.length + 1) new).map pendingOf) :
    t.Entered (rs ++ entriesOf (s.requests.length + 1) new) := by
  have hread := h.served.lastRead_le_handled.trans h.served.handled_le
  have hboth : ∀ {P : Range Handling → Prop}, (∀ r ∈ rs, P r) →
      (∀ i < new.length, ∀ q ∈ new, P ⟨s.requests.length + 1 + i,
        some (s.requests.length + 1 + i), ⟨q.workaround, q.flags⟩⟩) →
      ∀ r ∈ rs ++ entriesOf (s.requests.length + 1) new, P r := by
    intro P hold hnews r hr
    rcases List.mem_append.mp hr with hr | hr
    · exact hold r hr
    · obtain ⟨i, q, hq, -, rfl⟩ := mem_entriesOf hr
      exact hnews i (List.getElem?_eq_some_iff.mp hq).1 q (List.mem_of_getElem? hq)
  refine ⟨ht, by rw [hpending, h.pending, List.map_append], ?_, ?_, ?_, ?_, ?_⟩
  · exact hboth h.single.last fun i hi q hq => rfl
  · refine List.pairwise_append.mpr ⟨h.single.increasing, increasing_entriesOf _ _, ?_⟩
    intro r hr q hq
    obtain ⟨i, -, -, -, rfl⟩ := mem_entriesOf hq
    have := h.single.high r hr
    show r.first < s.requests.length + 1 + i
    omega
  · exact hboth h.single.owned fun i hi q hq => hwork q hq
  · rw [lastRead_of_reads hreads]
    refine hboth h.single.low fun i hi q hq => ?_
    show s.lastRead ≤ s.requests.length + 1 + i
    omega
  · rw [hnew, List.length_append]
    refine hboth (fun r hr => (h.single.high r hr).trans (Nat.le_add_right _ _)) fun i hi q hq => ?_
    show s.requests.length + 1 + i ≤ _
    omega

/-- Steps that do not touch the list, and read nothing with a number. -/
theorem Entered.of_same (h : s.Entered rs) (ht : t.Stamped)
    (hpending : t.conn.inp.pendingReplies = s.conn.inp.pendingReplies)
    (hrequests : t.requests = s.requests) (hlast : t.lastRead = s.lastRead) : t.Entered rs := by
  refine ⟨ht, hpending.trans h.pending, ?_⟩
  rw [hlast, hrequests]
  exact h.single

/-- Entries below the request that is being read are retired. -/
theorem Entered.pending_advance (h : s.Entered rs) (hwire : s.wire = p :: wire)
    (hkey : p.isKeymapNotify = false) (hnear : p.body.number < s.lastRead + 2 ^ 16)
    (hclose : s.Close) :
    (s.conn.inp.advance p).pendingReplies =
      (rs.filter fun r => s.retiredBelow p < r.first).map pendingOf := by
  have hlast : ∀ r ∈ rs, ∀ l ∈ r.last, l = r.first := by
    intro r hr l hl
    rw [h.single.last r hr] at hl
    exact (Option.some_inj.mp hl).symm
  rw [← h.single.retire_eq]
  refine h.toStamped.pending_advance h.pending (fun r hr _ => h.single.owned r hr) ?_ ?_ hwire hkey
    hnear hclose
  · intro r hr l hl
    rw [hlast r hr l hl]
    exact s.lastCompleted_le.trans (h.single.low r hr)
  · intro r hr l hl
    rw [hlast r hr l hl]
    exact h.single.high r hr

/-- The list after `read_packet`. -/
def readRanges (s : Session) (p : Packet Stamp) (rs : List (Range Handling)) :
    List (Range Handling) :=
  if p.isKeymapNotify then rs else rs.filter fun r => s.retiredBelow p < r.first

theorem Entered.read (h : s.Entered rs) (hwire : s.wire = p :: wire)
    (hnear : p.body.number < s.lastRead + 2 ^ 16) (hclose : s.Close)
    (ht : (s.read p wire).Stamped) : (s.read p wire).Entered (s.readRanges p rs) := by
  have hpending : (s.read p wire).conn.inp.pendingReplies =
      (s.conn.inp.advance p).pendingReplies := pendingReplies_readPacket _ _
  cases hkey : p.isKeymapNotify with
  | true =>
    rw [readRanges, if_pos hkey]
    refine h.of_same ht ?_ rfl (by rw [lastRead_read, nextRead, if_pos hkey])
    rw [hpending, XcbIn.advance_of_keymapNotify _ _ hkey]
  | false =>
    rw [readRanges, hkey, if_neg Bool.false_ne_true]
    refine ⟨ht, hpending.trans (h.pending_advance hwire hkey hnear hclose), ?_⟩
    refine h.single.filter _ fun r hr hlt => ?_
    have hlow := h.single.low r hr
    rw [lastRead_read, nextRead, hkey, if_neg Bool.false_ne_true]
    unfold retiredBelow at hlt
    simp only [decide_eq_true_eq] at hlt
    split at hlt <;> omega

/-- **The entry `read_packet` finds** is that of the request that is answered. -/
theorem Entered.matchPending (h : s.Entered rs) (hwire : s.wire = p :: wire)
    (hnear : p.body.number < s.lastRead + 2 ^ 16) (hclose : s.Close) :
    (s.conn.inp.advance p).matchPending p =
      if p.isAnswer then (rs.find? fun r => r.first = p.body.number).map pendingOf else none := by
  cases hanswer : p.isAnswer with
  | false =>
    have hcond : (p.isError || p.isReply) = false := by
      rw [Bool.or_comm]
      exact hanswer
    simp [XcbIn.matchPending, hcond]
  | true =>
    have hkey := isKeymapNotify_of_isAnswer hanswer
    obtain ⟨hnumber, hlow, hhigh⟩ := h.toStamped.number_of_isAnswer hwire hanswer
    have hcond : (p.isError || p.isReply) = true := by
      rw [Bool.or_comm]
      exact hanswer
    have hread : (s.conn.inp.advance p).requestRead = BitVec.ofNat 64 p.body.number := by
      rw [XcbIn.advance_requestRead _ _ hkey]
      exact h.widen (by rw [hwire]; exact List.mem_cons_self) hkey hnear
    have hsame : (rs.find? fun r => r.first = p.body.number) =
        (rs.filter fun r => s.retiredBelow p < r.first).find? fun r => r.first = p.body.number := by
      rw [List.find?_filter]
      congr 1
      funext r
      by_cases hr : r.first = p.body.number
      · simp [hr, show s.retiredBelow p < p.body.number by omega]
      · simp [hr]
    have hleft : Single p.body.number s.requests.length
        (rs.filter fun r => s.retiredBelow p < r.first) := by
      refine h.single.filter _ fun r _ hlt => ?_
      simp only [decide_eq_true_eq] at hlt
      omega
    rw [XcbIn.matchPending, if_pos hcond, hread, h.pending_advance hwire hkey hnear hclose,
      if_pos rfl, hsame, hleft.increasing.find?_eq_head? hleft.low]
    cases hrs : rs.filter fun r => s.retiredBelow p < r.first with
    | nil => rfl
    | cons r qs =>
      rw [hrs] at hleft
      have hlowest := hleft.low r List.mem_cons_self
      have hcovers := hleft.covers_head hlowest (by
        have := hleft.high r List.mem_cons_self
        have := s.lastRead_le_succ
        unfold Close at hclose
        omega)
      have hiff : r.first = p.body.number ↔ r.first ≤ p.body.number := by omega
      by_cases hfirst : r.first ≤ p.body.number <;>
        simp [Option.filter, hcovers, hiff, hfirst]

/-! ### Cookies -/

/-- A request that is in flight, being read, or has replies that nobody has collected. -/
def Live (s : Session) (m : ℕ) : Prop :=
  s.lastRead ≤ m ∧ m ≤ s.requests.length ∨ ∃ b ∈ s.conn.inp.stored, b.packet.body.number = m

/-- A cookie the connection issued, less than `2 ^ 31` away from all live requests. -/
structure Current (s : Session) (n : ℕ) : Prop where
  pos : 0 < n
  le : n ≤ s.requests.length
  near : ∀ m, s.Live m → n < m + 2 ^ 31 ∧ m < n + 2 ^ 31

/-- The low bits of the cookie and of each live request can be subtracted as `int`s, which
`discard_reply` does. -/
structure Discardable (s : Session) (n : ℕ) : Prop extends Current s n where
  fits : ∀ m, s.Live m → Serial.Fits (BitVec.ofNat 32 n) (BitVec.ofNat 32 m)

theorem Stamped.live_lastRead (h : s.Stamped) : s.Live s.lastRead :=
  .inl ⟨Nat.le_refl _, h.served.lastRead_le_handled.trans h.served.handled_le⟩

theorem Current.near_lastRead (hn : s.Current n) (h : s.Stamped) :
    n < s.lastRead + 2 ^ 31 ∧ s.lastRead < n + 2 ^ 31 :=
  hn.near _ h.live_lastRead

/-- The 32 bits of a cookie, compared with `request_read`. -/
theorem Discardable.compare (hn : s.Discardable n) (h : s.Stamped) :
    sequenceCompare32 (BitVec.ofNat 32 n) (low32 s.conn.inp.requestRead) =
      (n : ℤ) - s.lastRead := by
  obtain ⟨hlo, hhi⟩ := hn.near_lastRead h
  rw [h.requestRead, low32_ofNat]
  exact sequenceCompare32_ofNat (hn.fits _ h.live_lastRead) (by omega) (by omega)

/-- **`discard_reply`**: what is stored is freed, and an entry is marked while more may come. -/
theorem Entered.discardReply (h : s.Entered rs) (hn : s.Discardable n) :
    s.conn.inp.discardReply s.conn.out.request (BitVec.ofNat 32 n) =
      if n < s.lastRead then
        { s.conn.inp with replies := (s.conn.inp.replies.remove (BitVec.ofNat 32 n)).2 }
      else
        { s.conn.inp with
          currentReply := if n = s.lastRead then [] else s.conn.inp.currentReply
          pendingReplies := (markRange n rs).map pendingOf } := by
  have hcompare := hn.compare h.toStamped
  have hlive : ∀ r ∈ rs, s.Live r.first := fun r hr =>
    .inl ⟨h.single.low r hr, h.single.high r hr⟩
  have hnear : ∀ r ∈ rs, n < r.first + 2 ^ 31 ∧ r.first < n + 2 ^ 31 := fun r hr =>
    hn.near r.first (hlive r hr)
  rw [XcbIn.discardReply, hcompare]
  by_cases hlt : n < s.lastRead
  · rw [if_pos (by omega), if_pos hlt]
  · have hlength := hn.near s.requests.length (.inl
      ⟨h.served.lastRead_le_handled.trans h.served.handled_le, Nat.le_refl _⟩)
    rw [if_neg (by omega), if_neg hlt]
    by_cases hcurrent : n = s.lastRead ∧ s.conn.inp.currentReply ≠ []
    · -- the request is being read, and its entry can only be the head
      obtain ⟨heq, hne⟩ := hcurrent
      have hread : s.conn.inp.requestRead = BitVec.ofNat 64 n := by rw [h.requestRead, heq]
      have hsingle : Single n s.requests.length rs := by
        rw [heq]
        exact h.single
      have hhead := hsingle.markHead fun r hr => by
        have := (hnear r hr).2
        omega
      rw [← hread, ← h.pending] at hhead
      rw [if_pos ⟨by omega, hne⟩, if_pos heq]
      exact congrArg (fun pending =>
        { s.conn.inp with currentReply := [], pendingReplies := pending }) hhead
    · rw [if_neg fun hboth => hcurrent ⟨by omega, hboth.2⟩, h.request,
        widenRequest_ofNat hn.le (by omega), h.pending,
        h.single.markDiscard hnear fun r hr => hn.fits r.first (hlive r hr)]
      congr 1
      split
      · next heq => exact not_not.mp fun hne => hcurrent ⟨heq, hne⟩
      · rfl

/-- The list after `xcb_discard_reply`. -/
def discardRanges (s : Session) (n : ℕ) (rs : List (Range Handling)) : List (Range Handling) :=
  if n < s.lastRead then rs else markRange n rs

theorem Entered.discard (h : s.Entered rs) (hn : s.Discardable n) (hzero : BitVec.ofNat 32 n ≠ 0)
    (ht : (s.discard (BitVec.ofNat 32 n)).Stamped) :
    (s.discard (BitVec.ofNat 32 n)).Entered (s.discardRanges n rs) := by
  refine ⟨ht, ?_, ?_⟩
  · show (if BitVec.ofNat 32 n = 0 then s.conn.inp else _).pendingReplies = _
    rw [if_neg hzero, h.discardReply hn, discardRanges]
    split
    · exact h.pending
    · rfl
  · show Single s.lastRead s.requests.length _
    unfold discardRanges
    split
    · exact h.single
    · next hge => exact h.single.markRange (not_lt.mp hge) hn.le

/-- A discarded request that is not complete has an entry that says so. -/
theorem exists_discardRanges (s : Session) (rs : List (Range Handling))
    (hlt : s.lastCompleted < n) :
    ∃ r ∈ s.discardRanges n rs, r.first = n ∧ hasFlag r.value.flags requestDiscardReply = true := by
  have hread := s.lastRead_le_succ
  rw [discardRanges, if_neg (by omega)]
  obtain ⟨r, hr, rfl | ⟨q, -, hq, rfl⟩⟩ :=
    Keyed.exists_mem_upsert Range.first n (discardRange n) discardMark rs
  · exact ⟨_, hr, rfl, show hasFlag requestDiscardReply requestDiscardReply = true by decide⟩
  · exact ⟨_, hr, hq, hasFlag_or _⟩

end Session

end Xcb
