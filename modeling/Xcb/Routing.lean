import Xcb.Internal.Ranges
import Xcb.Synchrony

/-!
# Routing

`read_packet` decides what to do with an error or a reply by the head of `pending_replies`. Here
that list is a table of ranges: one number for a request that was sent with flags, and the numbers
from `*sent` on for an external owner of the socket. The result is that packets are routed by the
flags of their own request, except where the range of an external owner begins: it begins with the
last request before the handoff, which was not the owner's.

## Main definitions

* `Session.routeOf` — where a packet should go, by the flags of its request
* `Session.Tabled` — `pending_replies` is the table of the requests that are not complete
* `Session.Misattributed` — a packet that the range of an external owner should not cover

## Main results

* `tabled_step` — the table, at every step
* `routed_of_reach` — packets are where they should be
-/

namespace Xcb

open Ranges (Range)

/-- The event a caller was given. -/
def Observation.event? : Observation → Option (Buffer Stamp)
  | .event result => result
  | _ => none

/-- The reply or error a caller was given. -/
def Observation.reply? : Observation → Option (Buffer Stamp)
  | .poll _ result => result.join
  | _ => none

/-! ### Entries -/

/-- What an entry says about the requests of its range. -/
structure Handling where
  workaround : Workaround
  flags : Flags

/-- The entry of a range. That of an external owner is open until the socket comes back. -/
def pendingOf (r : Range Handling) : PendingReply :=
  match r.last with
  | some l => ⟨BitVec.ofNat 64 r.first, BitVec.ofNat 64 l, r.value.workaround, r.value.flags⟩
  | none =>
    ⟨BitVec.ofNat 64 r.first, BitVec.ofNat 64 r.first, .externalSocketOwner, r.value.flags⟩

theorem pendingOf_flags (r : Range Handling) : (pendingOf r).flags = r.value.flags := by
  unfold pendingOf
  split <;> rfl

/-- Was the request entered when it was numbered? -/
def Request.hasEntry (r : Request) : Bool := r.workaround != .none || r.flags != 0

/-- The entries of requests numbered from `n` on. -/
def entriesOf (n : ℕ) : List Request → List (Range Handling)
  | [] => []
  | r :: rs =>
    if r.hasEntry then ⟨n, some n, ⟨r.workaround, r.flags⟩⟩ :: entriesOf (n + 1) rs
    else entriesOf (n + 1) rs

theorem mem_entriesOf {n : ℕ} {requests : List Request} {r : Range Handling}
    (h : r ∈ entriesOf n requests) :
    ∃ i q, requests[i]? = some q ∧ q.hasEntry = true ∧
      r = ⟨n + i, some (n + i), ⟨q.workaround, q.flags⟩⟩ := by
  induction requests generalizing n with
  | nil => cases h
  | cons q requests ih =>
    have hlater : r ∈ entriesOf (n + 1) requests →
        ∃ i q', (q :: requests)[i]? = some q' ∧ q'.hasEntry = true ∧
          r = ⟨n + i, some (n + i), ⟨q'.workaround, q'.flags⟩⟩ := by
      intro hr
      obtain ⟨i, q', hq', hentry, rfl⟩ := ih hr
      exact ⟨i + 1, q', hq', hentry, by rw [Nat.add_assoc, Nat.add_comm 1 i]⟩
    simp only [entriesOf] at h
    split at h
    · next hentry =>
      rcases List.mem_cons.mp h with rfl | h
      · exact ⟨0, q, rfl, hentry, rfl⟩
      · exact hlater h
    · exact hlater h

theorem ordered_entriesOf (n : ℕ) (requests : List Request) :
    Ranges.Ordered (entriesOf n requests) := by
  induction requests generalizing n with
  | nil => exact .nil
  | cons q requests ih =>
    simp only [entriesOf]
    split
    · refine List.pairwise_cons.mpr ⟨?_, ih (n + 1)⟩
      intro r hr
      obtain ⟨i, -, -, -, rfl⟩ := mem_entriesOf hr
      exact ⟨n, rfl, by change n ≤ n + 1 + i; omega⟩
    · exact ih (n + 1)

theorem lookup_entriesOf (n : ℕ) (requests : List Request) (i : ℕ) :
    (Ranges.lookup (n + i) (entriesOf n requests)).map (·.value.flags) =
      (requests[i]?.filter Request.hasEntry).map Request.flags := by
  induction requests generalizing n i with
  | nil => rfl
  | cons q requests ih =>
    cases i with
    | zero =>
      simp only [entriesOf]
      split
      · next hentry => simp [Ranges.lookup, Range.reaches, Option.filter, hentry]
      · next hentry =>
        have hlt : ∀ r ∈ entriesOf (n + 1) requests, n < r.first := by
          intro r hr
          obtain ⟨i, -, -, -, rfl⟩ := mem_entriesOf hr
          change n < n + 1 + i
          omega
        have hnone : Ranges.lookup n (entriesOf (n + 1) requests) = none :=
          Ranges.lookup_append_of_lt [] hlt
        simp [hnone, hentry, Option.filter]
    | succ i =>
      have hrest := ih (n + 1) i
      rw [Nat.add_right_comm, Nat.add_assoc] at hrest
      rw [List.getElem?_cons_succ, ← hrest]
      simp only [entriesOf]
      split
      · congr 1
        refine @Ranges.lookup_append_of_none _ _ [_] _ ?_
        intro r hr
        rw [List.mem_singleton.mp hr]
        simp [Range.reaches]
      · rfl

/-- The entries a request is given when it is numbered are those of the history. -/
theorem pendingOf_entriesOf {n : ℕ} {number : BitVec 64} (hnumber : number = BitVec.ofNat 64 n)
    (count : ℕ) (call : SendCall) (req : PreparedRequest) (fails : ℕ → Bool) :
    (entriesOf (n + 1) (Session.newRequests number count call req fails)).map pendingOf =
      pendingSyncs (number + 1) count ++ req.pending (number + BitVec.ofNat 64 (count + 1)) := by
  have hsyncs : ∀ (count n : ℕ) (fails : ℕ → Bool) (rest : List Request),
      (entriesOf n (Session.syncRequests (BitVec.ofNat 64 n) fails count ++ rest)).map pendingOf =
        pendingSyncs (BitVec.ofNat 64 n) count ++ (entriesOf (n + count) rest).map pendingOf := by
    intro count
    induction count with
    | zero =>
      intro n fails rest
      rfl
    | succ count ih =>
      intro n fails rest
      have hnext : BitVec.ofNat 64 n + 1 = BitVec.ofNat 64 (n + 1) := (BitVec.ofNat_add n 1).symm
      rw [Session.syncRequests, pendingSyncs, hnext, List.cons_append, entriesOf,
        if_pos (by rfl), List.map_cons, ih, List.cons_append, Nat.add_right_comm, Nat.add_assoc]
      rfl
  have hfirst : number + 1 = BitVec.ofNat 64 (n + 1) := by
    rw [hnumber]
    exact (BitVec.ofNat_add n 1).symm
  have hown : number + BitVec.ofNat 64 (count + 1) = BitVec.ofNat 64 (n + 1 + count) := by
    rw [hnumber, ← BitVec.ofNat_add, Nat.add_assoc, Nat.add_comm count]
  rw [Session.newRequests, hfirst, hsyncs, hown]
  congr 1
  by_cases hentry : req.workaround ≠ .none ∨ req.flags ≠ 0
  · rw [PreparedRequest.pending, if_pos hentry, entriesOf, if_pos (by
      simpa [Request.hasEntry] using hentry)]
    rfl
  · rw [PreparedRequest.pending, if_neg hentry, entriesOf, if_neg (by
      simpa [Request.hasEntry] using hentry)]
    rfl

namespace Session

variable {s t : Session}

/-! ### Where packets should go -/

/-- The flags of request `n`. -/
def flagsOf (s : Session) (n : ℕ) : Flags := ((s.request? n).map Request.flags).getD 0

/-- Where a packet should go, by the flags of its own request. -/
def routeOf (s : Session) (p : Packet Stamp) : Route :=
  if p.isAnswer && hasFlag (s.flagsOf p.body.number) requestDiscardReply then .discard
  else if p.isReply || p.isError && hasFlag (s.flagsOf p.body.number) requestChecked then
    .replyStore
  else .eventQueue

/-- The flags of the first handoff with `*sent = n`. -/
def takenFlags (s : Session) (n : ℕ) : Option Flags :=
  (s.handoffs.find? fun handoff => handoff.1 == n).map (·.2)

/-- The flags by which `read_packet` will route the answers to request `n`. -/
def entryFlags (s : Session) (n : ℕ) : Option Flags :=
  (((s.request? n).filter Request.hasEntry).map Request.flags).or (s.takenFlags n)

/-- An answer to a request that has no entry of its own and was the last one before a handoff whose
flags make a difference to it. -/
def Misattributed (s : Session) (p : Packet Stamp) : Prop :=
  p.isAnswer = true ∧ (s.request? p.body.number).filter Request.hasEntry = none ∧
    ∃ flags ∈ s.takenFlags p.body.number, hasFlag flags requestDiscardReply = true ∨
      p.isError = true ∧ hasFlag flags requestChecked = true

/-! ### The table -/

/-- `pending_replies` is a table that decides every request which is not complete. -/
structure Tabled (s : Session) (rs : List (Range Handling)) : Prop extends Stamped s where
  pending : s.conn.inp.pendingReplies = rs.map pendingOf
  ordered : Ranges.Ordered rs
  proper : Ranges.Proper rs
  first_le : ∀ r ∈ rs, r.first ≤ s.requests.length
  last_le : ∀ r ∈ rs, ∀ l ∈ r.last, l ≤ s.requests.length
  live : ∀ r ∈ rs, ∀ l ∈ r.last, s.lastCompleted ≤ l
  /-- Only an open range looks like one of an external owner. -/
  owned : ∀ r ∈ rs, r.last ≠ none → r.value.workaround ≠ .externalSocketOwner
  width : ∀ r ∈ rs, r.last.getD s.requests.length ≤ r.first + 2 ^ 63
  /-- Only while there is an external owner is there an open range. -/
  closed : s.conn.out.returnSocket = none ∨ s.ownerFlags = 0 → ∀ r ∈ rs, r.last ≠ none
  opened : s.conn.out.returnSocket ≠ none → s.ownerFlags ≠ 0 →
    ∃ rs₀ first, rs = rs₀ ++ [⟨first, none, ⟨.none, s.ownerFlags⟩⟩] ∧
      (∀ r ∈ rs₀, r.last ≠ none) ∧ s.handoffs.getLast? = some (first, s.ownerFlags)
  handoffs_le : ∀ handoff ∈ s.handoffs, handoff.1 ≤ s.requests.length
  lookup : ∀ n, s.lastCompleted < n → n ≤ s.requests.length →
    (Ranges.lookup n rs).map (·.value.flags) = s.entryFlags n

variable {rs : List (Range Handling)}

/-- Steps that concern neither the table nor the packets read. -/
theorem Tabled.of_same (h : s.Tabled rs) (ht : t.Stamped)
    (hpending : t.conn.inp.pendingReplies = s.conn.inp.pendingReplies)
    (hrequests : t.requests = s.requests) (hhandoffs : t.handoffs = s.handoffs)
    (hflags : t.ownerFlags = s.ownerFlags)
    (hsocket : t.conn.out.returnSocket = s.conn.out.returnSocket) (hreads : t.reads = s.reads) :
    t.Tabled rs := by
  have hcompleted := lastCompleted_of_reads hreads
  have hentry : t.entryFlags = s.entryFlags := by
    funext n
    simp only [entryFlags, takenFlags, request?, hrequests, hhandoffs]
  refine ⟨ht, hpending.trans h.pending, h.ordered, h.proper, ?_, ?_, ?_, h.owned, ?_, ?_, ?_, ?_,
    ?_⟩
  · rw [hrequests]
    exact h.first_le
  · rw [hrequests]
    exact h.last_le
  · rw [hcompleted]
    exact h.live
  · rw [hrequests]
    exact h.width
  · rw [hsocket, hflags]
    exact h.closed
  · rw [hsocket, hflags, hhandoffs]
    exact h.opened
  · rw [hrequests, hhandoffs]
    exact h.handoffs_le
  · rw [hcompleted, hrequests, hentry]
    exact h.lookup

theorem Stamped.lastCompleted_le_length (h : s.Stamped) : s.lastCompleted ≤ s.requests.length :=
  s.lastCompleted_le.trans (h.served.lastRead_le_handled.trans h.served.handled_le)

/-- No handoff was at a later number. -/
theorem Tabled.takenFlags_eq_none (h : s.Tabled rs) {n : ℕ} (hlt : s.requests.length < n) :
    s.takenFlags n = none := by
  rw [takenFlags, Option.map_eq_none_iff, List.find?_eq_none]
  intro handoff hmem heq
  have := h.handoffs_le handoff hmem
  rw [beq_iff_eq] at heq
  omega

/-- Closed ranges do not reach a later number. -/
theorem Tabled.reaches_eq_false (h : s.Tabled rs) {n : ℕ} (hlt : s.requests.length < n)
    {r : Range Handling} (hr : r ∈ rs) (hclosed : r.last ≠ none) : r.reaches n = false := by
  obtain ⟨l, hl⟩ := Option.ne_none_iff_exists'.mp hclosed
  have := h.last_le r hr l hl
  simp only [Range.reaches, hl, Option.all_some, decide_eq_false_iff_not]
  omega

theorem workaround_of_newRequests {number : BitVec 64} {count : ℕ} {call : SendCall}
    {req : PreparedRequest} {fails : ℕ → Bool} (hwork : req.workaround ≠ .externalSocketOwner)
    {i : ℕ} {q : Request} (hq : (newRequests number count call req fails)[i]? = some q) :
    q.workaround ≠ .externalSocketOwner := by
  rcases List.mem_append.mp (List.mem_of_getElem? hq) with hmem | hmem
  · obtain ⟨j, hj⟩ := List.getElem?_of_mem hmem
    rw [(getElem?_syncRequests hj).2.2.2]
    decide
  · rw [List.mem_singleton.mp hmem]
    exact hwork

/-- A request is numbered. -/
theorem Tabled.send (h : s.Tabled rs) (call : SendCall) (req : PreparedRequest) (fails : ℕ → Bool)
    (hwork : req.workaround ≠ .externalSocketOwner) (hfree : s.conn.out.returnSocket = none)
    {socket queue : List UInt8} {queueLen : ℕ} {written : BitVec 64}
    (ht : ((s.number call req fails).withOutput socket queue queueLen written).Stamped) :
    ((s.number call req fails).withOutput socket queue queueLen written).Tabled
      (rs ++ entriesOf (s.requests.length + 1)
        (newRequests s.conn.out.request (s.conn.numberRequest req).2 call req fails)) := by
  have hpend := numberRequest_fst s.conn req
  rw [number_eq] at ht ⊢
  generalize (s.conn.numberRequest req).2 = count at hpend ht ⊢
  generalize hnews : newRequests s.conn.out.request count call req fails = new at ht ⊢
  set t : Session := Session.withOutput _ socket queue queueLen written with hdef
  have hnew : t.requests = s.requests ++ new := rfl
  have hlen : t.requests.length = s.requests.length + new.length := by
    rw [hnew, List.length_append]
  have hclosed : ∀ r ∈ rs, r.last ≠ none := h.closed (.inl hfree)
  have hentries : ∀ r ∈ entriesOf (s.requests.length + 1) new, ∃ i < new.length, ∃ q,
      new[i]? = some q ∧ r = ⟨s.requests.length + 1 + i, some (s.requests.length + 1 + i),
        ⟨q.workaround, q.flags⟩⟩ := by
    intro r hr
    obtain ⟨i, q, hq, -, rfl⟩ := mem_entriesOf hr
    exact ⟨i, (List.getElem?_eq_some_iff.mp hq).1, q, hq, rfl⟩
  have hboth : ∀ {P : Range Handling → Prop}, (∀ r ∈ rs, P r) →
      (∀ i < new.length, ∀ q, new[i]? = some q → P ⟨s.requests.length + 1 + i,
        some (s.requests.length + 1 + i), ⟨q.workaround, q.flags⟩⟩) →
      ∀ r ∈ rs ++ entriesOf (s.requests.length + 1) new, P r := by
    intro P hold hnews r hr
    rcases List.mem_append.mp hr with hr | hr
    · exact hold r hr
    · obtain ⟨i, hi, q, hq, rfl⟩ := hentries r hr
      exact hnews i hi q hq
  have hcompleted : t.lastCompleted = s.lastCompleted := lastCompleted_of_reads rfl
  refine ⟨ht, ?_, ?_, ?_, ?_, ?_, ?_, ?_, ?_, ?_, ?_, ?_, ?_⟩
  · rw [List.map_append, ← hnews, pendingOf_entriesOf h.request, ← h.pending, ← List.append_assoc]
    change (s.conn.numberRequest req).1.inp.pendingReplies = _
    rw [hpend]
  · refine List.pairwise_append.mpr ⟨h.ordered, ordered_entriesOf _ _, ?_⟩
    intro r hr q hq
    obtain ⟨l, hl⟩ := Option.ne_none_iff_exists'.mp (hclosed r hr)
    obtain ⟨i, -, -, -, rfl⟩ := hentries q hq
    exact ⟨l, hl, (h.last_le r hr l hl).trans (by change _ ≤ s.requests.length + 1 + i; omega)⟩
  · exact hboth h.proper (by rintro i - q - l ⟨rfl⟩; exact Nat.le_refl _)
  · refine hboth (fun r hr => (h.first_le r hr).trans (by omega)) ?_
    intro i hi q _
    change s.requests.length + 1 + i ≤ _
    omega
  · refine hboth (fun r hr l hl => (h.last_le r hr l hl).trans (by omega)) ?_
    rintro i hi q - l ⟨rfl⟩
    omega
  · rw [hcompleted]
    have hle := h.toStamped.lastCompleted_le_length
    refine hboth h.live ?_
    rintro i hi q - l ⟨rfl⟩
    omega
  · refine hboth h.owned ?_
    intro i _ q hq _
    rw [← hnews] at hq
    exact workaround_of_newRequests hwork hq
  · refine hboth ?_ ?_
    · intro r hr
      obtain ⟨l, hl⟩ := Option.ne_none_iff_exists'.mp (hclosed r hr)
      have hwidth := h.width r hr
      rw [hl] at hwidth ⊢
      exact hwidth
    · intro i _ q _
      exact Nat.le_add_right _ _
  · intro _
    exact hboth hclosed fun i _ q _ => Option.some_ne_none _
  · intro htaken
    change (s.conn.numberRequest req).1.out.returnSocket ≠ none at htaken
    rw [hpend] at htaken
    exact absurd hfree htaken
  · exact fun handoff hmem => (h.handoffs_le handoff hmem).trans (by omega)
  · intro n hlow hhigh
    rw [hcompleted] at hlow
    have htaken : t.takenFlags n = s.takenFlags n := rfl
    rcases Nat.lt_or_ge s.requests.length n with hlt | hle
    · obtain ⟨i, rfl⟩ : ∃ i, n = s.requests.length + 1 + i :=
        ⟨n - (s.requests.length + 1), by omega⟩
      rw [Ranges.lookup_append_of_none _ fun r hr => h.reaches_eq_false hlt hr (hclosed r hr),
        lookup_entriesOf, entryFlags, htaken, h.takenFlags_eq_none hlt, Option.or_none,
        Nat.add_right_comm, request?_append_right hnew]
    · have hlater : ∀ r ∈ entriesOf (s.requests.length + 1) new, n < r.first := by
        intro r hr
        obtain ⟨i, -, -, -, rfl⟩ := hentries r hr
        change n < s.requests.length + 1 + i
        omega
      rw [Ranges.lookup_append_of_lt _ hlater, h.lookup n hlow hle, entryFlags, entryFlags, htaken,
        request?_append_left hnew hle]

/-- The socket is taken: one open range, from the last request on. -/
theorem Tabled.register (h : s.Tabled rs) (flags : Flags) (hfree : s.conn.out.returnSocket = none)
    (ht : (s.register flags).Stamped) :
    (s.register flags).Tabled
      (rs ++ if flags ≠ 0 then [⟨s.requests.length, none, ⟨.none, flags⟩⟩] else []) := by
  have hclosed : ∀ r ∈ rs, r.last ≠ none := h.closed (.inl hfree)
  have hcompleted : (s.register flags).lastCompleted = s.lastCompleted := lastCompleted_of_reads rfl
  have hpending : (s.register flags).conn.inp.pendingReplies = rs.map pendingOf ++
      if flags ≠ 0 then
        [⟨s.conn.out.request, s.conn.out.request, .externalSocketOwner, flags⟩]
      else [] := by
    rw [register_inp, ← h.pending]
  by_cases hflags : flags ≠ 0
  · rw [if_pos hflags] at hpending ⊢
    have hhandoffs : (s.register flags).handoffs = s.handoffs ++ [(s.requests.length, flags)] :=
      if_pos hflags
    have hboth : ∀ {P : Range Handling → Prop}, (∀ r ∈ rs, P r) →
        P ⟨s.requests.length, none, ⟨.none, flags⟩⟩ →
        ∀ r ∈ rs ++ [⟨s.requests.length, none, ⟨.none, flags⟩⟩], P r := by
      intro P hold hnew r hr
      rcases List.mem_append.mp hr with hr | hr
      · exact hold r hr
      · rw [List.mem_singleton.mp hr]
        exact hnew
    refine ⟨ht, ?_, ?_, ?_, ?_, ?_, ?_, ?_, ?_, ?_, ?_, ?_, ?_⟩
    · rw [hpending, List.map_append, h.request]
      rfl
    · refine List.pairwise_append.mpr ⟨h.ordered, List.pairwise_singleton _ _, ?_⟩
      intro r hr q hq
      obtain ⟨l, hl⟩ := Option.ne_none_iff_exists'.mp (hclosed r hr)
      rw [List.mem_singleton.mp hq]
      exact ⟨l, hl, h.last_le r hr l hl⟩
    · exact hboth h.proper (by rintro l ⟨⟩)
    · exact hboth h.first_le (Nat.le_refl _)
    · exact hboth h.last_le (by rintro l ⟨⟩)
    · rw [hcompleted]
      exact hboth h.live (by rintro l ⟨⟩)
    · exact hboth h.owned fun hnone => absurd rfl hnone
    · exact hboth h.width (Nat.le_add_right _ _)
    · rintro (hsocket | hzero)
      · cases hsocket
      · exact absurd hzero hflags
    · intro _ _
      exact ⟨rs, _, rfl, hclosed, by rw [hhandoffs, List.getLast?_concat]; rfl⟩
    · intro handoff hmem
      rw [hhandoffs] at hmem
      rcases List.mem_append.mp hmem with hmem | hmem
      · exact h.handoffs_le handoff hmem
      · rw [List.mem_singleton.mp hmem]
        exact Nat.le_refl _
    · intro n hlow hhigh
      rw [hcompleted] at hlow
      have hold := h.lookup n hlow hhigh
      have hreq : (s.register flags).request? n = s.request? n := rfl
      have htaken : (s.register flags).takenFlags n =
          (s.takenFlags n).or (if s.requests.length = n then some flags else none) := by
        rw [takenFlags, takenFlags, hhandoffs, List.find?_append, Option.map_or]
        by_cases heq : s.requests.length = n <;> simp [heq]
      rw [entryFlags, htaken, hreq, ← Option.or_assoc, ← entryFlags, ← hold]
      rcases Nat.lt_or_eq_of_le (show n ≤ s.requests.length from hhigh) with hlt | rfl
      · rw [if_neg (Nat.ne_of_gt hlt), Option.or_none, Ranges.lookup_append_of_lt]
        intro r hr
        rw [List.mem_singleton.mp hr]
        exact hlt
      · rw [if_pos rfl, Ranges.lookup_append_of_contains h.first_le (Nat.le_refl _) rfl,
          Option.map_or]
        rfl
  · rw [if_neg hflags, List.append_nil] at hpending ⊢
    have hhandoffs : (s.register flags).handoffs = s.handoffs := if_neg hflags
    have hzero : flags = 0 := not_not.mp hflags
    refine ⟨ht, hpending, h.ordered, h.proper, h.first_le, h.last_le, ?_, h.owned, h.width,
      fun _ => hclosed, fun _ hne => absurd hzero hne, ?_, ?_⟩
    · rw [hcompleted]
      exact h.live
    · rw [hhandoffs]
      exact h.handoffs_le
    · intro n hlow hhigh
      rw [hcompleted] at hlow
      rw [h.lookup n hlow hhigh, entryFlags, entryFlags, takenFlags, takenFlags, hhandoffs]
      rfl

/-- The owner numbers requests of its own. -/
theorem Tabled.writev (h : s.Tabled rs) {requests : List OwnerRequest}
    (htaken : s.conn.out.returnSocket ≠ none)
    (hwidth : ∀ handoff ∈ s.handoffs.getLast?,
      s.ownerFlags ≠ 0 → s.requests.length + requests.length ≤ handoff.1 + 2 ^ 63)
    {socket queue : List UInt8} {queueLen : ℕ} {written : BitVec 64}
    (ht : ((s.numberOwner requests).withOutput socket queue queueLen written).Stamped) :
    ((s.numberOwner requests).withOutput socket queue queueLen written).Tabled rs := by
  set t : Session := (s.numberOwner requests).withOutput socket queue queueLen written with hdef
  have hnew : t.requests =
      s.requests ++ ownerRequests s.ownerFlags (s.conn.out.request + 1) requests := rfl
  have hlen : t.requests.length = s.requests.length + requests.length := by
    rw [hnew, List.length_append, length_ownerRequests]
  have hcompleted : t.lastCompleted = s.lastCompleted := lastCompleted_of_reads rfl
  refine ⟨ht, h.pending, h.ordered, h.proper, ?_, ?_, ?_, h.owned, ?_, h.closed, h.opened, ?_, ?_⟩
  · exact fun r hr => (h.first_le r hr).trans (by omega)
  · exact fun r hr l hl => (h.last_le r hr l hl).trans (by omega)
  · rw [hcompleted]
    exact h.live
  · intro r hr
    cases hl : r.last with
    | some l =>
      have := h.width r hr
      rwa [hl] at this
    | none =>
      have hflags : s.ownerFlags ≠ 0 := fun hzero => h.closed (.inr hzero) r hr hl
      obtain ⟨rs₀, first, rfl, hclosed, hlast⟩ := h.opened htaken hflags
      rcases List.mem_append.mp hr with hr | hr
      · exact absurd hl (hclosed r hr)
      · rw [List.mem_singleton.mp hr, hlen]
        exact hwidth _ hlast hflags
  · exact fun handoff hmem => (h.handoffs_le handoff hmem).trans (by omega)
  · intro n hlow hhigh
    rw [hcompleted] at hlow
    have htakenFlags : t.takenFlags n = s.takenFlags n := rfl
    rcases Nat.lt_or_ge s.requests.length n with hlt | hle
    · obtain ⟨i, rfl⟩ : ∃ i, n = s.requests.length + i + 1 := ⟨n - s.requests.length - 1, by omega⟩
      have hi : i < (ownerRequests s.ownerFlags (s.conn.out.request + 1) requests).length := by
        rw [length_ownerRequests]
        omega
      obtain ⟨q, hq⟩ : ∃ q, (ownerRequests s.ownerFlags (s.conn.out.request + 1) requests)[i]? =
          some q := ⟨_, List.getElem?_eq_getElem hi⟩
      obtain ⟨hqflags, hqwork⟩ := getElem?_ownerRequests hq
      rw [entryFlags, htakenFlags, h.takenFlags_eq_none hlt, Option.or_none,
        request?_append_right hnew, hq]
      by_cases hflags : s.ownerFlags = 0
      · rw [Ranges.lookup_eq_none fun r hr =>
          h.reaches_eq_false hlt hr (h.closed (.inr hflags) r hr)]
        simp [Option.filter, Request.hasEntry, hqflags, hqwork, hflags]
      · obtain ⟨rs₀, first, hrs, hclosed, hlast⟩ := h.opened htaken hflags
        have hfirst : first ≤ s.requests.length :=
          h.first_le ⟨first, none, ⟨.none, s.ownerFlags⟩⟩ (by rw [hrs]; simp)
        rw [hrs, Ranges.lookup_append_of_none _ fun r hr =>
          h.reaches_eq_false hlt (by rw [hrs]; exact List.mem_append_left _ hr) (hclosed r hr)]
        have hle : first ≤ s.requests.length + i + 1 := by omega
        have hentry : q.hasEntry = true := by
          rw [Request.hasEntry, hqflags, bne_iff_ne.mpr hflags, Bool.or_true]
        simp [Ranges.lookup, Range.reaches, Option.filter, hentry, hqflags, hle]
    · rw [h.lookup n hlow hle, entryFlags, entryFlags, htakenFlags, request?_append_left hnew hle]

/-- The socket is given back: the open range ends. -/
theorem Tabled.getSocketBack (h : s.Tabled rs) (htaken : s.conn.out.returnSocket ≠ none)
    (ht : s.getSocketBack.Stamped) : ∃ rs', s.getSocketBack.Tabled rs' := by
  have hcompleted : s.getSocketBack.lastCompleted = s.lastCompleted := lastCompleted_of_reads rfl
  by_cases hflags : s.ownerFlags = 0
  · have hclosed : ∀ r ∈ rs, r.last ≠ none := h.closed (.inr hflags)
    have hpending : s.getSocketBack.conn.inp.pendingReplies = s.conn.inp.pendingReplies := by
      change (s.conn.inp.repliesDone _).pendingReplies = _
      unfold XcbIn.repliesDone
      split
      · next pend hpend =>
        rw [h.pending, List.getLast?_map] at hpend
        obtain ⟨r, hr, rfl⟩ := Option.map_eq_some_iff.mp hpend
        have hmem := List.mem_of_getLast? hr
        have hown := h.owned r hmem (hclosed r hmem)
        obtain ⟨l, hl⟩ := Option.ne_none_iff_exists'.mp (hclosed r hmem)
        rw [if_neg (by rw [pendingOf, hl]; exact hown)]
      · rfl
    refine ⟨rs, ht, hpending.trans h.pending, h.ordered, h.proper, h.first_le, h.last_le, ?_,
      h.owned, h.width, fun _ => hclosed, fun hne => absurd rfl hne, h.handoffs_le, ?_⟩
    · rw [hcompleted]
      exact h.live
    · rw [hcompleted]
      exact h.lookup
  · obtain ⟨rs₀, first, rfl, hclosed, hlast⟩ := h.opened htaken hflags
    have hopen : (⟨first, none, ⟨.none, s.ownerFlags⟩⟩ : Range Handling) ∈
        rs₀ ++ [⟨first, none, ⟨.none, s.ownerFlags⟩⟩] := by simp
    have hboth : ∀ {P : Range Handling → Prop},
        (∀ r ∈ rs₀ ++ [⟨first, none, ⟨.none, s.ownerFlags⟩⟩], P r) →
        P ⟨first, some s.requests.length, ⟨.none, s.ownerFlags⟩⟩ →
        ∀ r ∈ rs₀ ++ [⟨first, some s.requests.length, ⟨.none, s.ownerFlags⟩⟩], P r := by
      intro P hold hnew r hr
      rcases List.mem_append.mp hr with hr | hr
      · exact hold r (List.mem_append_left _ hr)
      · rw [List.mem_singleton.mp hr]
        exact hnew
    have hfirst := h.first_le _ hopen
    refine ⟨rs₀ ++ [⟨first, some s.requests.length, ⟨.none, s.ownerFlags⟩⟩], ht, ?_, ?_, ?_, ?_, ?_,
      ?_, ?_, ?_, ?_, fun hne => absurd rfl hne, h.handoffs_le, ?_⟩
    · change (s.conn.inp.repliesDone _).pendingReplies = _
      simp only [XcbIn.repliesDone, h.pending, List.map_append, List.map_cons, List.map_nil,
        List.getLast?_concat, List.dropLast_concat, pendingOf, if_true, h.request]
    · obtain ⟨hold, -, hbetween⟩ := List.pairwise_append.mp h.ordered
      refine List.pairwise_append.mpr ⟨hold, List.pairwise_singleton _ _, ?_⟩
      intro r hr q hq
      rw [List.mem_singleton.mp hq]
      exact hbetween r hr ⟨first, none, ⟨.none, s.ownerFlags⟩⟩ (List.mem_singleton.mpr rfl)
    · exact hboth h.proper (by rintro l ⟨rfl⟩; exact hfirst)
    · exact hboth h.first_le hfirst
    · exact hboth h.last_le (by rintro l ⟨rfl⟩; exact Nat.le_refl _)
    · rw [hcompleted]
      exact hboth h.live (by rintro l ⟨rfl⟩; exact h.toStamped.lastCompleted_le_length)
    · exact hboth h.owned (by rintro - ⟨⟩)
    · have hwidth : s.requests.length ≤ first + 2 ^ 63 := h.width _ hopen
      exact hboth h.width hwidth
    · intro _ r hr
      rcases List.mem_append.mp hr with hr | hr
      · exact hclosed r hr
      · rw [List.mem_singleton.mp hr]
        exact Option.some_ne_none _
    · intro n hlow hhigh
      rw [hcompleted] at hlow
      have hvalue := congrArg (Option.map Handling.flags) (Ranges.lookup_close (n := n)
        (m := s.requests.length) hhigh rs₀ first (⟨.none, s.ownerFlags⟩ : Handling))
      rw [Option.map_map, Option.map_map] at hvalue
      exact hvalue.trans (h.lookup n hlow hhigh)

/-! ### Reading -/

/-- `request_completed` when entries are retired. -/
def retiredBelow (s : Session) (p : Packet Stamp) : ℕ :=
  if p.body.number ≠ s.lastRead then p.body.number - 1 else s.lastCompleted

/-- The answers to request `n` start above the completed ones. -/
theorem Stamped.number_of_isAnswer (h : s.Stamped) {p : Packet Stamp}
    {wire : List (Packet Stamp)} (hwire : s.wire = p :: wire) (hanswer : p.isAnswer = true) :
    p.body.number = s.retiredBelow p + 1 ∧ s.lastCompleted < p.body.number ∧
      p.body.number ≤ s.requests.length := by
  have hp : p ∈ s.wire := by
    rw [hwire]
    exact List.mem_cons_self
  have hpackets : p ∈ s.packets := List.mem_append_right _ hp
  have hle := h.served.lastRead_le hp
  have hcompleted := s.lastCompleted_le
  have hbounds : 0 < p.body.number ∧ p.body.number ≤ s.requests.length := by
    rcases (Bool.or_eq_true _ _).mp hanswer with hreply | herror
    · obtain ⟨r, hr, -⟩ := h.served.reply p hpackets hreply
      exact le_length_of_request? hr
    · obtain ⟨r, hr, -⟩ := h.served.error p hpackets herror
      exact le_length_of_request? hr
  unfold retiredBelow
  by_cases hsame : p.body.number = s.lastRead
  · -- no error has been read for it, for that would have been the last answer
    have hnone : s.errorRead s.lastRead = false := by
      rw [← Bool.not_eq_true, errorRead_iff]
      rintro ⟨q, hq, herror, hnumber⟩
      have hlt := (List.pairwise_append.mp h.served.final).2.2 q hq p hp herror hanswer
      omega
    have hvalue : s.lastCompleted = s.lastRead - 1 := by simp [lastCompleted, hnone]
    rw [if_neg (not_not.mpr hsame)]
    omega
  · rw [if_pos hsame]
    omega

/-- Entries are retired up to a request that is complete once the packet is read. -/
theorem Stamped.retiredBelow_le (h : s.Stamped) {p : Packet Stamp} {wire : List (Packet Stamp)}
    (hwire : s.wire = p :: wire) (hkey : p.isKeymapNotify = false) :
    s.lastCompleted ≤ s.retiredBelow p ∧ s.retiredBelow p ≤ (s.read p wire).lastCompleted ∧
      (s.read p wire).lastCompleted ≤ s.retiredBelow p + 1 := by
  have hle := h.served.lastRead_le (p := p) (by rw [hwire]; exact List.mem_cons_self)
  have hcompleted := s.lastCompleted_le
  refine ⟨?_, ?_⟩
  · unfold retiredBelow
    split <;> omega
  · rw [h.served.lastCompleted_read hwire hkey, ← retiredBelow]
    split
    · next herror =>
      have hanswer : p.isAnswer = true := by rw [Packet.isAnswer, herror, Bool.or_true]
      have := (h.number_of_isAnswer hwire hanswer).1
      omega
    · omega

/-- Retiring entries is retiring ranges. -/
theorem retired_pendingOf {r : Range Handling} {n : ℕ}
    (howned : r.last ≠ none → r.value.workaround ≠ .externalSocketOwner)
    (hwindow : ∀ l ∈ r.last, n ≤ l + 2 ^ 63 ∧ l < n + 2 ^ 63) :
    (pendingOf r).retired (BitVec.ofNat 64 n) = r.last.any (· ≤ n) := by
  cases hl : r.last with
  | none => simp [pendingOf, hl, PendingReply.retired]
  | some l =>
    obtain ⟨hlo, hhi⟩ := hwindow l hl
    have hown := howned (by rw [hl]; exact Option.some_ne_none l)
    simp [pendingOf, hl, PendingReply.retired, hown, sequenceCompare_ofNat hlo hhi]

theorem dropWhile_pendingOf {n : ℕ} {rs : List (Range Handling)}
    (howned : ∀ r ∈ rs, r.last ≠ none → r.value.workaround ≠ .externalSocketOwner)
    (hwindow : ∀ r ∈ rs, ∀ l ∈ r.last, n ≤ l + 2 ^ 63 ∧ l < n + 2 ^ 63) :
    (rs.map pendingOf).dropWhile (·.retired (BitVec.ofNat 64 n)) =
      (Ranges.retire n rs).map pendingOf := by
  induction rs with
  | nil => rfl
  | cons r rs ih =>
    have hr := retired_pendingOf (howned r List.mem_cons_self) (hwindow r List.mem_cons_self)
    rw [List.map_cons, List.dropWhile_cons, hr, Ranges.retire, List.dropWhile_cons]
    split
    · exact ih (fun q hq => howned q (List.mem_cons_of_mem _ hq))
        fun q hq => hwindow q (List.mem_cons_of_mem _ hq)
    · rfl

/-- Fewer than `2 ^ 63 - 1` requests are in flight. -/
def Close (s : Session) : Prop := s.requests.length + 1 < s.lastRead + 2 ^ 63

section read

variable {p : Packet Stamp} {wire : List (Packet Stamp)}

/-- The entries after a packet with a number. -/
theorem Stamped.pending_advance (h : s.Stamped)
    (hpending : s.conn.inp.pendingReplies = rs.map pendingOf)
    (howned : ∀ r ∈ rs, r.last ≠ none → r.value.workaround ≠ .externalSocketOwner)
    (hlive : ∀ r ∈ rs, ∀ l ∈ r.last, s.lastCompleted ≤ l)
    (hlast : ∀ r ∈ rs, ∀ l ∈ r.last, l ≤ s.requests.length) (hwire : s.wire = p :: wire)
    (hkey : p.isKeymapNotify = false) (hnear : p.body.number < s.lastRead + 2 ^ 16)
    (hclose : s.Close) :
    (s.conn.inp.advance p).pendingReplies =
      (Ranges.retire (s.retiredBelow p) rs).map pendingOf := by
  have hp : p ∈ s.wire := by
    rw [hwire]
    exact List.mem_cons_self
  have hle := h.served.lastRead_le hp
  have hhandled := h.served.le_handled p (List.mem_append_right _ hp)
  have hhandled_le := h.served.handled_le
  have hcompleted := s.lastCompleted_le
  have hread := s.lastRead_le_succ
  have hvalue : (s.conn.inp.advanceRead
      (widenSequence s.conn.inp.requestRead p.sequence)).requestCompleted =
        BitVec.ofNat 64 (s.retiredBelow p) := by
    rw [h.widen hp hkey hnear]
    simp only [XcbIn.advanceRead, h.requestRead, h.requestCompleted, retiredBelow]
    by_cases hsame : p.body.number = s.lastRead
    · simp [hsame]
    · have hne : BitVec.ofNat 64 p.body.number ≠ BitVec.ofNat 64 s.lastRead := fun heq =>
        hsame ((Serial.ofNat_inj (by omega) (by omega)).mp heq)
      rw [if_pos hne, if_pos hsame, ofNat_sub_one (by omega)]
  rw [XcbIn.advance_pendingReplies _ _ hkey, hvalue, hpending]
  refine dropWhile_pendingOf howned fun r hr l hl => ?_
  have hlow := hlive r hr l hl
  have hhigh := hlast r hr l hl
  unfold Close at hclose
  unfold retiredBelow
  split <;> omega

theorem Tabled.pending_advance (h : s.Tabled rs) (hwire : s.wire = p :: wire)
    (hkey : p.isKeymapNotify = false) (hnear : p.body.number < s.lastRead + 2 ^ 16)
    (hclose : s.Close) :
    (s.conn.inp.advance p).pendingReplies =
      (Ranges.retire (s.retiredBelow p) rs).map pendingOf :=
  h.toStamped.pending_advance h.pending h.owned h.live h.last_le hwire hkey hnear hclose

/-- An entry that is not retired covers what is not below its range. -/
theorem Tabled.covers_pendingOf (h : s.Tabled rs) {r : Range Handling} (hr : r ∈ rs) {n : ℕ}
    (hlow : s.lastCompleted < n) (hhigh : n ≤ s.requests.length) (hclose : s.Close)
    (hreach : r.reaches n = true) :
    (pendingOf r).covers (BitVec.ofNat 64 n) = decide (r.first ≤ n) := by
  have hfirst_le := h.first_le r hr
  have hread := s.lastRead_le_succ
  have hwidth := h.width r hr
  unfold Close at hclose
  cases hl : r.last with
  | none =>
    rw [hl] at hwidth
    change s.requests.length ≤ _ at hwidth
    simp [pendingOf, hl, PendingReply.covers, sequenceCompare_ofNat
      (show n ≤ r.first + 2 ^ 63 by omega) (show r.first < n + 2 ^ 63 by omega)]
  | some l =>
    have hlast := h.last_le r hr l hl
    have hlive := h.live r hr l hl
    rw [hl] at hwidth
    simp only [Range.reaches, hl, Option.all_some, decide_eq_true_eq] at hreach
    simp [pendingOf, hl, PendingReply.covers, sequenceCompare_ofNat
      (show n ≤ r.first + 2 ^ 63 by simp at hwidth; omega)
      (show r.first < n + 2 ^ 63 by omega), sequenceCompare_ofNat (show l ≤ n + 2 ^ 63 by omega)
      (show n < l + 2 ^ 63 by omega), hreach]

/-- **The entry `read_packet` finds** for an answer. -/
theorem Tabled.matchPending (h : s.Tabled rs) (hwire : s.wire = p :: wire)
    (hnear : p.isKeymapNotify = false → p.body.number < s.lastRead + 2 ^ 16) (hclose : s.Close) :
    ((s.conn.inp.advance p).matchPending p).map PendingReply.flags =
      if p.isAnswer then s.entryFlags p.body.number else none := by
  cases hanswer : p.isAnswer with
  | false =>
    have hcond : (p.isError || p.isReply) = false := by
      rw [Bool.or_comm]
      exact hanswer
    simp [XcbIn.matchPending, hcond]
  | true =>
    have hkey := isKeymapNotify_of_isAnswer hanswer
    obtain ⟨hnumber, hlow, hhigh⟩ := h.toStamped.number_of_isAnswer hwire hanswer
    have hcond : (p.isError || p.isReply) = true := by
      rw [Bool.or_comm]
      exact hanswer
    have hread : (s.conn.inp.advance p).requestRead = BitVec.ofNat 64 p.body.number := by
      rw [XcbIn.advance_requestRead _ _ hkey]
      exact h.widen (by rw [hwire]; exact List.mem_cons_self) hkey (hnear hkey)
    rw [XcbIn.matchPending, if_pos hcond, hread, h.pending_advance hwire hkey (hnear hkey) hclose,
      if_pos rfl, ← h.lookup _ hlow hhigh]
    conv_rhs => rw [hnumber, Ranges.lookup_eq_head, ← hnumber]
    cases hhead : Ranges.retire (s.retiredBelow p) rs with
    | nil => rfl
    | cons r qs =>
      have hmem : r ∈ Ranges.retire (s.retiredBelow p) rs := by
        rw [hhead]
        exact List.mem_cons_self
      have hreach := h.ordered.retire h.proper r hmem
      have hcovers : (pendingOf r).covers (BitVec.ofNat 64 p.body.number) =
          decide (r.first ≤ p.body.number) :=
        h.covers_pendingOf ((List.dropWhile_sublist _).subset hmem) hlow hhigh hclose
          (by rw [hnumber]; exact hreach)
      by_cases hfirst : r.first ≤ p.body.number <;>
        simp [Option.filter, hcovers, hfirst, pendingOf_flags]

theorem pendingReplies_readPacket (c : XcbIn Empty Stamp) (p : Packet Stamp) :
    (c.readPacket p).1.pendingReplies = (c.advance p).pendingReplies := by
  rw [XcbIn.readPacket_fst]

/-- A packet is read. -/
theorem Tabled.read (h : s.Tabled rs) (hwire : s.wire = p :: wire)
    (hnear : p.isKeymapNotify = false → p.body.number < s.lastRead + 2 ^ 16) (hclose : s.Close)
    (ht : (s.read p wire).Stamped) : ∃ rs', (s.read p wire).Tabled rs' := by
  have hpending : (s.read p wire).conn.inp.pendingReplies =
      (s.conn.inp.advance p).pendingReplies := pendingReplies_readPacket _ _
  cases hkey : p.isKeymapNotify with
  | true =>
    have hcompleted := s.lastCompleted_read_of_keymapNotify wire hkey
    rw [XcbIn.advance_of_keymapNotify _ _ hkey] at hpending
    refine ⟨rs, ht, hpending.trans h.pending, h.ordered, h.proper, h.first_le, h.last_le, ?_,
      h.owned, h.width, h.closed, h.opened, h.handoffs_le, ?_⟩
    · rw [hcompleted]
      exact h.live
    · rw [hcompleted]
      exact h.lookup
  | false =>
    rw [h.pending_advance hwire hkey (hnear hkey) hclose] at hpending
    have hsub : (Ranges.retire (s.retiredBelow p) rs).Sublist rs := List.dropWhile_sublist _
    have hreach := h.ordered.retire h.proper (n := s.retiredBelow p)
    obtain ⟨hbefore, hbelow⟩ := h.toStamped.retiredBelow_le hwire hkey
    refine ⟨_, ht, hpending, h.ordered.sublist hsub, ?_, ?_, ?_, ?_, ?_, ?_, ?_, ?_,
      h.handoffs_le, ?_⟩
    · exact fun r hr => h.proper r (hsub.subset hr)
    · exact fun r hr => h.first_le r (hsub.subset hr)
    · exact fun r hr => h.last_le r (hsub.subset hr)
    · intro r hr l hl
      have hle := hreach r hr
      rw [Option.mem_def] at hl
      simp only [Range.reaches, hl, Option.all_some, decide_eq_true_eq] at hle
      omega
    · exact fun r hr => h.owned r (hsub.subset hr)
    · exact fun r hr => h.width r (hsub.subset hr)
    · exact fun hor r hr => h.closed hor r (hsub.subset hr)
    · intro htaken hflags
      obtain ⟨rs₀, first, hrs, hclosed, hlast⟩ := h.opened htaken hflags
      refine ⟨Ranges.retire (s.retiredBelow p) rs₀, first, ?_, ?_, hlast⟩
      · rw [hrs, Ranges.retire_append_open]
        rfl
      · exact fun r hr => hclosed r ((List.dropWhile_sublist _).subset hr)
    · intro n hlow hhigh
      have hold : s.lastCompleted < n := Nat.lt_of_le_of_lt (hbefore.trans hbelow.1) hlow
      rw [Ranges.lookup_retire (lt_of_le_of_lt hbelow.1 hlow), h.lookup n hold hhigh]
      rfl

end read

/-! ### Runs -/

/-- What a run must keep to for its packets to be routed by their own flags. -/
structure Attributed (s : Session) (a : Action) : Prop where
  discard : a.isDiscard = false
  near : Near s a
  close : a = .read → s.Close
  /-- An owner numbers at most `2 ^ 63` requests. -/
  width : ∀ requests, a = .writev requests → ∀ handoff ∈ s.handoffs.getLast?,
    s.ownerFlags ≠ 0 → s.requests.length + requests.length ≤ handoff.1 + 2 ^ 63
  /-- Of two `GetInputFocus` at once only one is sent. -/
  single : ∀ call fails, a = .send call fails →
    ∀ req ∈ call.prepare s.conn.setupMaximumRequestLength, ¬ s.conn.DoubleSync call.isvoid
  attributed : a = .read → ∀ p ∈ s.wire.head?, ¬ s.Misattributed p

theorem tabled_init (size : ℕ) (maximum : BitVec 16) : (Session.init size maximum).Tabled [] := by
  have hstamped := stamped_init size maximum
  refine ⟨hstamped, rfl, .nil, ?_, ?_, ?_, ?_, ?_, ?_, ?_, fun hne => absurd rfl hne, ?_, ?_⟩
  iterate 6
    intro r hr
    cases hr
  · intro _ r hr
    cases hr
  · intro handoff hmem
    cases hmem
  · intro n hlow hhigh
    change n ≤ 0 at hhigh
    omega

/-- One step, by its action. -/
theorem tabled_step {a : Action} (h : ∃ rs, s.Tabled rs) (hok : Attributed s a)
    (hstep : s.step a = some t) : ∃ rs, t.Tabled rs := by
  obtain ⟨rs, h⟩ := h
  have ht := stamped_step h.toStamped hok.near hstep
  cases step_cases hstep with
  | @send call fails req _ _ _ _ _ hfree hreq =>
    exact ⟨_, h.send call req fails (workaround_of_prepare hreq) hfree ht⟩
  | @takeSocket flags socket queue queueLen written hfree =>
    have hout : (s.withOutput socket queue queueLen written).Tabled rs :=
      h.of_same ⟨h.served.of_client (List.append_nil _).symm rfl rfl, h.request, h.requestRead,
        h.requestCompleted⟩ rfl rfl rfl rfl rfl rfl
    exact ⟨_, hout.register flags hfree ht⟩
  | @writev requests _ _ _ _ htaken =>
    exact ⟨rs, h.writev htaken (hok.width requests rfl) ht⟩
  | getSocketBack htaken => exact h.getSocketBack htaken ht
  | @poll cookie =>
    obtain ⟨currentReply, replies, heq⟩ := s.conn.inp.pollForReply_snd (BitVec.ofNat 32 cookie)
    refine ⟨rs, h.of_same ht ?_ rfl rfl rfl rfl (reads_poll s cookie)⟩
    change (s.conn.inp.pollForReply _).2.pendingReplies = _
    rw [heq]
  | getEvent =>
    refine ⟨rs, h.of_same ht ?_ rfl rfl rfl rfl (reads_getEvent s)⟩
    change s.conn.inp.getEvent.2.pendingReplies = _
    rw [XcbIn.getEvent_snd]
  | discard => cases hok.discard
  | @read p wire hwire =>
    exact h.read hwire (hok.near rfl p (by rw [hwire]; rfl)) (hok.close rfl) ht
  | _ => exact ⟨rs, h.of_same ht rfl rfl rfl rfl rfl rfl⟩

theorem tabled_of_reach {size : ℕ} {maximum : BitVec 16}
    (h : Transition.Reach Session.step Attributed (Session.init size maximum) s) :
    ∃ rs, s.Tabled rs :=
  h.invariant (P := fun s => ∃ rs, s.Tabled rs)
    (fun _ _ _ h hok hstep => tabled_step h hok hstep) ⟨[], tabled_init size maximum⟩

/-- Only the flags of the entry matter to the route. -/
theorem route_eq_of_flags (pend : Option PendingReply) (p : Packet Stamp) :
    route pend p =
      if (pend.map PendingReply.flags).any (hasFlag · requestDiscardReply) then .discard
      else if p.isReply ||
          p.isError && (pend.map PendingReply.flags).any (hasFlag · requestChecked) then .replyStore
      else .eventQueue := by
  cases pend <;> rfl

/-- A request without an entry was sent without flags. -/
theorem flagsOf_of_not_hasEntry {n : ℕ} (h : (s.request? n).filter Request.hasEntry = none) :
    s.flagsOf n = 0 := by
  unfold flagsOf
  cases hreq : s.request? n with
  | none => rfl
  | some r =>
    have hentry : r.hasEntry = false := by
      rw [hreq] at h
      simpa [Option.filter] using h
    simp only [Request.hasEntry, Bool.or_eq_false_iff, bne_eq_false_iff_eq] at hentry
    exact hentry.2

/-- **A packet is routed** by the flags of its own request. -/
theorem Tabled.route_eq (h : s.Tabled rs) {p : Packet Stamp} {wire : List (Packet Stamp)}
    (hwire : s.wire = p :: wire)
    (hnear : p.isKeymapNotify = false → p.body.number < s.lastRead + 2 ^ 16) (hclose : s.Close)
    (hown : ¬ s.Misattributed p) :
    route ((s.conn.inp.advance p).matchPending p) p = s.routeOf p := by
  rw [route_eq_of_flags, h.matchPending hwire hnear hclose, routeOf]
  cases hanswer : p.isAnswer with
  | false =>
    have hnot := hanswer
    simp only [Packet.isAnswer, Bool.or_eq_false_iff] at hnot
    simp [hnot]
  | true =>
    rw [if_pos rfl, Bool.true_and]
    cases hentry : (s.request? p.body.number).filter Request.hasEntry with
    | some r =>
      have hflags : s.flagsOf p.body.number = r.flags := by
        rw [flagsOf, (Option.filter_eq_some_iff.mp hentry).1]
        rfl
      simp [entryFlags, hentry, hflags]
    | none =>
      rw [flagsOf_of_not_hasEntry hentry]
      cases htaken : s.takenFlags p.body.number with
      | none => simp [entryFlags, hentry, htaken, hasFlag]
      | some flags =>
        have hfine : hasFlag flags requestDiscardReply = false ∧
            (p.isError = true → hasFlag flags requestChecked = false) := by
          refine ⟨Bool.eq_false_iff.mpr fun hd => ?_,
            fun herror => Bool.eq_false_iff.mpr fun hc => ?_⟩
          · exact hown ⟨hanswer, hentry, flags, htaken, .inl hd⟩
          · exact hown ⟨hanswer, hentry, flags, htaken, .inr ⟨herror, hc⟩⟩
        have hnone : hasFlag 0 requestDiscardReply = false ∧ hasFlag 0 requestChecked = false :=
          ⟨rfl, rfl⟩
        simp only [entryFlags, hentry, htaken, Option.map_none, Option.none_or, Option.any_some,
          hfine.1, hnone]
        cases herror : p.isError with
        | false => rfl
        | true => rw [hfine.2 herror]

/-! ### Where packets are -/

/-- The packets that were handed out as events, and those that wait in the event queue. -/
def eventsOf (s : Session) : List (Packet Stamp) :=
  (s.log.filterMap Observation.event? ++ s.conn.inp.events).map Buffer.packet

/-- The packets that were handed out as replies or errors, and those in the reply store. -/
def repliesOf (s : Session) : List (Packet Stamp) :=
  (s.log.filterMap Observation.reply? ++ s.conn.inp.stored).map Buffer.packet

/-- Every packet that was read is where it should be by the flags of its own request; events are
in the order they arrived in. -/
structure Routed (s : Session) : Prop where
  events : s.eventsOf = s.reads.filter fun p => s.routeOf p = .eventQueue
  replies : s.repliesOf.Perm (s.reads.filter fun p => s.routeOf p = .replyStore)

/-- Later requests do not change where a packet should go. -/
theorem routeOf_append {new : List Request} (hnew : t.requests = s.requests ++ new)
    {p : Packet Stamp} (hle : p.body.number ≤ s.requests.length) : t.routeOf p = s.routeOf p := by
  rw [routeOf, flagsOf, request?_append_left hnew hle, routeOf, flagsOf]

/-- Steps that read nothing, and lose nothing. -/
theorem Routed.of_reads (h : s.Routed) (hserved : s.Served) {new : List Request}
    (hnew : t.requests = s.requests ++ new) (hreads : t.reads = s.reads)
    (hevents : t.eventsOf = s.eventsOf) (hreplies : t.repliesOf.Perm s.repliesOf) : t.Routed := by
  have hroute : ∀ p ∈ s.reads, t.routeOf p = s.routeOf p := by
    intro p hp
    have hle := hserved.le_handled p (List.mem_append_left _ hp)
    exact routeOf_append hnew (hle.trans hserved.handled_le)
  have hfilter : ∀ r, (t.reads.filter fun p => t.routeOf p = r) =
      s.reads.filter fun p => s.routeOf p = r := by
    intro r
    rw [hreads]
    refine List.filter_congr fun p hp => ?_
    rw [hroute p hp]
  refine ⟨?_, ?_⟩
  · rw [hevents, hfilter]
    exact h.events
  · rw [hfilter]
    exact hreplies.trans h.replies

/-- A reply that is collected leaves the reply store. -/
theorem perm_repliesOf_poll (s : Session) (cookie : ℕ) :
    (s.poll cookie).repliesOf.Perm s.repliesOf := by
  have hlog : (s.poll cookie).log.filterMap Observation.reply? =
      s.log.filterMap Observation.reply? ++
        (s.conn.inp.pollForReply (BitVec.ofNat 32 cookie)).1.join.toList := by
    change (s.log ++ [Observation.poll cookie
      (s.conn.inp.pollForReply (BitVec.ofNat 32 cookie)).1]).filterMap Observation.reply? = _
    rw [List.filterMap_append]
    cases hresult : (s.conn.inp.pollForReply (BitVec.ofNat 32 cookie)).1.join <;>
      simp [Observation.reply?, hresult]
  refine List.Perm.map _ ?_
  rw [hlog, List.append_assoc]
  exact (XcbIn.perm_pollForReply s.conn.inp _).append_left _

theorem eventsOf_poll (s : Session) (cookie : ℕ) :
    (s.poll cookie).eventsOf = s.eventsOf := by
  obtain ⟨currentReply, replies, heq⟩ := s.conn.inp.pollForReply_snd (BitVec.ofNat 32 cookie)
  simp [eventsOf, Session.poll, Observation.event?, heq]

/-- An event that is handed out leaves the event queue, from the front. -/
theorem eventsOf_getEvent (s : Session) : s.getEvent.eventsOf = s.eventsOf := by
  have hlog : s.getEvent.log.filterMap Observation.event? =
      s.log.filterMap Observation.event? ++ s.conn.inp.events.head?.toList := by
    change (s.log ++ [_]).filterMap Observation.event? = _
    rw [List.filterMap_append]
    congr 1
    cases hevents : s.conn.inp.events <;> simp [Observation.event?, XcbIn.getEvent, hevents]
  have hinp : s.getEvent.conn.inp.events = s.conn.inp.events.tail := by
    change s.conn.inp.getEvent.2.events = _
    rw [XcbIn.getEvent_snd]
  rw [eventsOf, hlog, hinp, List.append_assoc, eventsOf]
  cases s.conn.inp.events <;> rfl

theorem repliesOf_getEvent (s : Session) : s.getEvent.repliesOf = s.repliesOf := by
  simp [repliesOf, Session.getEvent, Observation.reply?, XcbIn.getEvent_snd, XcbIn.stored]

/-- A packet that is read is queued behind the events, or is none. -/
theorem eventsOf_read (s : Session) (p : Packet Stamp) (wire : List (Packet Stamp)) :
    (s.read p wire).eventsOf = s.eventsOf ++
      if route ((s.conn.inp.advance p).matchPending p) p = .eventQueue then [p] else [] := by
  show (List.filterMap Observation.event? (s.log ++ [Observation.read p]) ++
    (s.conn.inp.readPacket p).1.events).map Buffer.packet = _
  rw [XcbIn.events_readPacket, List.filterMap_append, eventsOf]
  split <;> simp [Observation.event?, XcbIn.buffer]

/-- **A packet is read**, and is where it should be. -/
theorem Routed.read (h : s.Routed) {p : Packet Stamp} {wire : List (Packet Stamp)}
    (hroute : route ((s.conn.inp.advance p).matchPending p) p = s.routeOf p) :
    (s.read p wire).Routed := by
  have hrouteOf : (s.read p wire).routeOf = s.routeOf := rfl
  refine ⟨?_, ?_⟩
  · rw [reads_read, hrouteOf, List.filter_append, ← h.events, eventsOf_read, hroute]
    by_cases hevent : s.routeOf p = .eventQueue <;> simp [hevent]
  · rw [reads_read, hrouteOf, List.filter_append]
    refine .trans (.of_eq ?_) (h.replies.append_right _)
    change (List.filterMap Observation.reply? (s.log ++ [Observation.read p]) ++
      (s.conn.inp.readPacket p).1.stored).map Buffer.packet = _
    rw [XcbIn.stored_readPacket, hroute, List.filterMap_append, repliesOf]
    by_cases hreply : s.routeOf p = .replyStore <;>
      simp [Observation.reply?, hreply, XcbIn.buffer]

theorem routed_init (size : ℕ) (maximum : BitVec 16) : (Session.init size maximum).Routed :=
  ⟨rfl, .refl _⟩

/-- One step, by its action. -/
theorem routed_step {a : Action} (h : s.Routed) (htab : s.Tabled rs) (hok : Attributed s a)
    (hstep : s.step a = some t) : t.Routed := by
  have hserved := htab.served
  have hnil : s.requests = s.requests ++ [] := (List.append_nil _).symm
  cases step_cases hstep with
  | send =>
    rw [number_eq]
    refine h.of_reads hserved rfl rfl ?_ (.of_eq ?_) <;>
      simp [eventsOf, repliesOf, withOutput, numberRequest_fst, XcbIn.stored]
  | takeSocket =>
    refine h.of_reads hserved hnil rfl ?_ (.of_eq ?_) <;>
      simp only [eventsOf, repliesOf, register_inp] <;> rfl
  | writev => exact h.of_reads hserved rfl rfl rfl (.refl _)
  | getSocketBack =>
    obtain ⟨pending, heq⟩ := s.conn.inp.repliesDone_eq s.conn.out.request
    refine h.of_reads hserved hnil rfl ?_ (.of_eq ?_) <;>
      simp [eventsOf, repliesOf, Session.getSocketBack, heq, XcbIn.stored]
  | @poll cookie =>
    exact h.of_reads hserved hnil (reads_poll s cookie) (eventsOf_poll s cookie)
      (perm_repliesOf_poll s cookie)
  | getEvent =>
    exact h.of_reads hserved hnil (reads_getEvent s) (eventsOf_getEvent s)
      (.of_eq (repliesOf_getEvent s))
  | discard => cases hok.discard
  | @read p wire hwire =>
    have hp : p ∈ s.wire.head? := by rw [hwire]; rfl
    exact h.read (htab.route_eq hwire (hok.near rfl p hp) (hok.close rfl) (hok.attributed rfl p hp))
  | _ => exact h.of_reads hserved hnil rfl rfl (.refl _)

/-- Without handoffs nothing is misattributed, and no packet is far from the last one. -/
theorem attributed_of_close {ok : Session → Action → Prop} {size : ℕ} {maximum : BitVec 16}
    (h : Transition.Reach Session.step ok (Session.init size maximum) s)
    (hok : ∀ s a, ok s a → a.isDiscard = false ∧ a.isHandoff = false ∧ (a = .read → s.Close))
    (hlt : s.requests.length < 2 ^ 64) :
    Transition.Reach Session.step (fun s a => Attributed s a ∧ ok s a)
        (Session.init size maximum) s ∧
      Transition.Reach Session.step InFlight (Session.init size maximum) s ∧ s.handoffs = [] := by
  induction h with
  | refl => exact ⟨.refl _, .refl _, rfl⟩
  | @tail t u a hreach hstep_ok hstep ih =>
    have hlen := length_requests_le hstep
    obtain ⟨hattributed, hflight, hnil⟩ := ih (by omega)
    obtain ⟨expected, hsync⟩ := synchronous_of_reach hflight
    obtain ⟨hdiscard, hhandoff, hclose⟩ := hok t a hstep_ok
    refine ⟨.tail hattributed ⟨⟨hdiscard, ?_, hclose, ?_, ?_, ?_⟩, hstep_ok⟩ hstep,
      .tail hflight ⟨hhandoff, fun hread => ?_⟩ hstep, ?_⟩
    · rintro rfl p hp -
      obtain ⟨wire, hwire⟩ := List.head?_eq_some_iff.mp hp
      exact hsync.number_lt hwire
    · rintro requests rfl
      cases hhandoff
    · rintro call fails rfl req hreq hdouble
      rw [← isvoid_of_prepare hreq] at hdouble
      have hlast : BitVec.ofNat 64 t.requests.length = BitVec.ofNat 64 (2 ^ 64 - 2) := by
        rw [← hsync.request, hdouble.2.1]
        rfl
      have hlength := (Serial.ofNat_inj (by omega) (by omega)).mp hlast
      have hnew : u.requests.length = t.requests.length + 3 := by
        cases step_cases hstep with
        | @send _ _ req' _ _ _ _ _ _ hreq' =>
          rw [hreq] at hreq'
          cases hreq'
          rw [number_eq, numberRequest_snd_of_doubleSync hdouble]
          simp [withOutput]
        | refuse hnone =>
          rw [hreq] at hnone
          cases hnone
      omega
    · rintro - p - ⟨-, -, flags, hflags, -⟩
      simp [takenFlags, hnil] at hflags
    · have := hclose hread
      unfold Close at this
      omega
    · cases step_cases hstep with
      | send =>
        rw [number_eq]
        exact hnil
      | takeSocket => cases hhandoff
      | _ => exact hnil

/-! ### The result -/

/-- **Packets are routed by the flags of the request that caused them**, unless the range of an
external owner takes the last request before the handoff in. -/
theorem routed_of_reach {size : ℕ} {maximum : BitVec 16}
    (h : Transition.Reach Session.step Attributed (Session.init size maximum) s) : s.Routed := by
  induction h with
  | refl => exact routed_init size maximum
  | tail hreach hok hstep ih =>
    obtain ⟨rs, htab⟩ := tabled_of_reach hreach
    exact routed_step ih htab hok hstep

/-- The error of a single request. -/
theorem routed_word : oneWord.Routed := by
  have hok : AllowsWords fun _ a => a.isDiscard = false ∧ a.isHandoff = false :=
    ⟨fun _ _ _ => ⟨rfl, rfl⟩, fun _ => ⟨rfl, rfl⟩, fun _ => ⟨rfl, rfl⟩, fun _ _ => ⟨rfl, rfl⟩,
      fun _ => ⟨rfl, rfl⟩⟩
  have hlength := words_oneWord.length
  have hclose : Transition.Reach Session.step (fun s a => a.isDiscard = false ∧
      a.isHandoff = false ∧ (a = .read → s.Close)) _ _ :=
    reach_of_length_le (reach_oneWord hok) fun t a hle hok => ⟨hok.1, hok.2, fun _ => by
      unfold Close
      omega⟩
  exact routed_of_reach ((attributed_of_close hclose (fun _ _ hok => hok) (by omega)).1.mono
    fun _ _ hok => hok.1)

/-- An owner that takes the socket and gives it back. -/
theorem Words.handBack {void : ℕ → Bool} {sent handled read : ℕ} {expected : BitVec 64}
    (h : s.Words void sent handled read expected) (flags : Flags) :
    (s.takeSocket flags).getSocketBack.Words void sent handled read expected := by
  rw [takeSocket, h.flushTo_eq_self]
  obtain ⟨pending, heq⟩ :=
    (s.register flags).conn.inp.repliesDone_eq (s.register flags).conn.out.request
  have hinp : (s.register flags).getSocketBack.conn.inp = _ := heq
  rw [register_inp] at hinp
  refine ⟨⟨h.hasError, h.maximum, rfl, h.queueLen, h.request, h.requestWritten, ?_, h.length,
    h.encodings, h.socket⟩, ?_, h.wire, h.handled_eq, h.handled_le, h.answered, h.kind⟩
  · rw [hinp]
    exact h.requestExpected
  · rw [hinp]
    exact h.requestRead

/-- The error of an unchecked request, taken for that of an owner who asked for checked ones and
sent nothing. -/
theorem not_routed_handBack :
    ∃ s : Session, Transition.Reach Session.step (fun _ a => a.isDiscard = false)
      (Session.init 16384 65535) s ∧ ¬ s.Routed := by
  have hok : AllowsWords fun _ a => a.isDiscard = false :=
    ⟨fun _ _ _ => rfl, fun _ => rfl, fun _ => rfl, fun _ _ => rfl, fun _ => rfl⟩
  have hsent := words_sendWord_init
  have hback := hsent.handBack requestChecked
  have hreach := reach_sendWord hok (words_init (fun _ => false) 16384).toFlushed false true
  obtain ⟨socket, queue, queueLen, written, hout⟩ :=
    out_sendWord (Session.init 16384 65535) false true
  set s := (Session.init 16384 65535).sendWord false true with hs
  have htake : s.step (.takeSocket requestChecked) = some (s.takeSocket requestChecked) := by
    simp [Session.step, hsent.hasError, hsent.returnSocket]
  have hgive : (s.takeSocket requestChecked).step .getSocketBack =
      some (s.takeSocket requestChecked).getSocketBack := rfl
  refine ⟨_, ((hreach.tail rfl htake).tail rfl hgive).trans
    (hback.reach_serveWord hok (by norm_num) rfl), ?_⟩
  intro hrouted
  have hevents := hrouted.events
  rw [takeSocket, hsent.flushTo_eq_self, hout] at hevents
  set t := ((((Session.init 16384 65535).number (wordCall false) (wordRequest false)
    (onlyOwn true)).withOutput socket queue queueLen written).register
      requestChecked).getSocketBack with ht
  let p : Packet Stamp := ⟨xcbError, 1, ⟨1, []⟩⟩
  have hread : t.serveWord.reads = [p] := rfl
  have hroute : t.serveWord.routeOf p = .eventQueue := by
    have hflags : t.serveWord.flagsOf 1 = 0 := rfl
    simp only [routeOf, p, hflags]
    decide
  have hqueue : t.serveWord.conn.inp.events = [] := by
    have hinp : t.conn.inp = { XcbIn.init with
        requestExpected := 1, pendingReplies := [⟨1, 1, .none, requestChecked⟩] } := rfl
    change (t.conn.inp.readPacket p).1.events = []
    rw [hinp]
    decide
  have hnone : t.serveWord.eventsOf = [] := by
    rw [eventsOf, hqueue]
    rfl
  simp [hnone, hread, hroute] at hevents

end Session

end Xcb
