import Xcb.Routing

/-!
# Replies are delivered

The replies and errors of a request wait in two places: in `current_reply` while its packets are
being read, and then in the map of replies, under the low 32 bits of its number. A caller takes
them out one at a time, which puts the rest of a node back at the end of the map. Seen through the
full number of a request, all this is one queue for each request: a packet enters it when it is
read, and leaves it when it is handed back.

## Main definitions

* `XcbIn.waiting` — the queue of a request
* `XcbIn.Filed` — every node of the map belongs to one request
* `Session.Delivers` — what a caller can rely on

## Main results

* `XcbIn.Filed.pollForReply` — a poll takes one packet from the front of one queue
* `XcbIn.Filed.waiting_eq_nil` — and returns nothing only if its own queue is empty
* `delivers_of_reach` — delivery is exact
-/

namespace Xcb

variable {τ : Type}

/-! ### Queues of requests -/

/-- The packets of request `n` among these. -/
def packetsOf (n : ℕ) (buffers : List (Buffer Stamp)) : List (Packet Stamp) :=
  (buffers.map Buffer.packet).filter fun p => p.body.number = n

@[simp] theorem packetsOf_nil (n : ℕ) : packetsOf n [] = [] := rfl

@[simp] theorem packetsOf_append (n : ℕ) (bs cs : List (Buffer Stamp)) :
    packetsOf n (bs ++ cs) = packetsOf n bs ++ packetsOf n cs := by
  simp [packetsOf]

theorem packetsOf_cons (n : ℕ) (b : Buffer Stamp) (bs : List (Buffer Stamp)) :
    packetsOf n (b :: bs) =
      (if b.packet.body.number = n then [b.packet] else []) ++ packetsOf n bs := by
  by_cases h : b.packet.body.number = n <;> simp [packetsOf, h]

theorem packetsOf_eq_nil {n : ℕ} {bs : List (Buffer Stamp)}
    (h : ∀ b ∈ bs, b.packet.body.number ≠ n) : packetsOf n bs = [] := by
  simpa [packetsOf] using h

/-- The replies and errors of request `n` that wait to be collected. -/
def XcbIn.waiting (c : XcbIn τ Stamp) (n : ℕ) : List (Packet Stamp) := packetsOf n c.stored

/-- A node of the map with the packets of request `k`. -/
structure NodeOf (k : ℕ) (node : BitVec 32 × List (Buffer Stamp)) : Prop where
  key : node.1 = BitVec.ofNat 32 k
  ne_nil : node.2 ≠ []
  number : ∀ b ∈ node.2, b.packet.body.number = k

/-- Each node of the map belongs to one request before the one read last, and no two to the same;
`current_reply` belongs to the one read last. -/
structure XcbIn.Filed (c : XcbIn τ Stamp) (last : ℕ) : Prop where
  node : ∀ node ∈ c.replies.nodes, ∃ k < last, NodeOf k node
  distinct : c.replies.nodes.Pairwise fun m n =>
    ∀ b ∈ m.2, ∀ b' ∈ n.2, b.packet.body.number ≠ b'.packet.body.number
  current : ∀ b ∈ c.currentReply, b.packet.body.number = last

theorem eq_of_sequenceCompare32_eq_zero {a b : BitVec 32} (h : sequenceCompare32 a b = 0) :
    a = b :=
  (sequenceCompare32_eq_zero_iff a b).mp h

namespace XcbIn.Filed

variable {c : XcbIn τ Stamp} {last n : ℕ}

/-- The queue of a request: what is in the map, and behind it what is in `current_reply`. -/
theorem waiting_eq (c : XcbIn τ Stamp) (n : ℕ) :
    c.waiting n = packetsOf n (c.replies.nodes.flatMap (·.2)) ++ packetsOf n c.currentReply :=
  packetsOf_append n _ _

theorem packetsOf_flatMap_eq_nil {nodes : List (BitVec 32 × List (Buffer Stamp))}
    (h : ∀ node ∈ nodes, ∀ b ∈ node.2, b.packet.body.number ≠ n) :
    packetsOf n (nodes.flatMap (·.2)) = [] := by
  refine packetsOf_eq_nil fun b hb => ?_
  obtain ⟨node, hnode, hb⟩ := List.mem_flatMap.mp hb
  exact h node hnode b hb

/-- Nothing in the map is as late as the request read last. -/
theorem number_lt (h : c.Filed last) {node : BitVec 32 × List (Buffer Stamp)}
    (hnode : node ∈ c.replies.nodes) {b : Buffer Stamp} (hb : b ∈ node.2) :
    b.packet.body.number < last := by
  obtain ⟨k, hk, hof⟩ := h.node node hnode
  rw [hof.number b hb]
  exact hk

/-- The first packet of a node goes, the rest goes back to the end of the map. -/
theorem putBack (h : c.Filed last) {key : BitVec 32} {head : Buffer Stamp}
    {next : List (Buffer Stamp)} {before after : List (BitVec 32 × List (Buffer Stamp))}
    (hnodes : c.replies.nodes = before ++ (key, head :: next) :: after)
    {replies : XcbMap (List (Buffer Stamp))}
    (hreplies : replies = if next = [] then ⟨before ++ after⟩
      else (XcbMap.mk (before ++ after)).put key next) :
    ({ c with replies := replies } : XcbIn τ Stamp).Filed last ∧
      key = BitVec.ofNat 32 head.packet.body.number ∧
      ∀ n, c.waiting n = packetsOf n [head] ++
        ({ c with replies := replies } : XcbIn τ Stamp).waiting n := by
  obtain ⟨k, hk, hof⟩ := h.node (key, head :: next) (by rw [hnodes]; simp)
  have hhead : head.packet.body.number = k := hof.number head List.mem_cons_self
  have hnext : ∀ b ∈ next, b.packet.body.number = k :=
    fun b hb => hof.number b (List.mem_cons_of_mem _ hb)
  have hdistinct := h.distinct
  rw [hnodes] at hdistinct
  obtain ⟨hbefore, hbehind, hacross⟩ := List.pairwise_append.mp hdistinct
  obtain ⟨hnode, hafter⟩ := List.pairwise_cons.mp hbehind
  have hrest : (before ++ after).Pairwise fun m n =>
      ∀ b ∈ m.2, ∀ b' ∈ n.2, b.packet.body.number ≠ b'.packet.body.number :=
    List.pairwise_append.mpr ⟨hbefore, hafter, fun m hm n hn =>
      hacross m hm n (List.mem_cons_of_mem _ hn)⟩
  have hothers : ∀ node ∈ before ++ after, ∀ b ∈ node.2, b.packet.body.number ≠ k := by
    intro node hmem b hb
    rcases List.mem_append.mp hmem with hmem | hmem
    · rw [← hhead]
      exact hacross node hmem _ List.mem_cons_self b hb head List.mem_cons_self
    · rw [← hhead]
      exact (hnode node hmem head List.mem_cons_self b hb).symm
  have hold : ∀ node ∈ before ++ after, ∃ k < last, NodeOf k node := by
    intro node hmem
    refine h.node node ?_
    rw [hnodes]
    rcases List.mem_append.mp hmem with hmem | hmem
    · exact List.mem_append_left _ hmem
    · exact List.mem_append_right _ (List.mem_cons_of_mem _ hmem)
  refine ⟨?_, hof.key.trans (by rw [hhead]), ?_⟩
  · by_cases hempty : next = []
    · rw [if_pos hempty] at hreplies
      subst hreplies
      exact ⟨hold, hrest, h.current⟩
    · rw [if_neg hempty] at hreplies
      subst hreplies
      refine ⟨?_, ?_, h.current⟩
      · intro node hmem
        rcases List.mem_append.mp hmem with hmem | hmem
        · exact hold node hmem
        · rw [List.mem_singleton.mp hmem]
          exact ⟨k, hk, hof.key, hempty, hnext⟩
      · refine List.pairwise_append.mpr ⟨hrest, List.pairwise_singleton _ _, ?_⟩
        intro m hm node hnode b hb b' hb'
        rw [List.mem_singleton.mp hnode] at hb'
        rw [hnext b' hb']
        exact hothers m hm b hb
  · intro n
    have hmap : packetsOf n (replies.nodes.flatMap (·.2)) =
        packetsOf n (before.flatMap (·.2)) ++ packetsOf n (after.flatMap (·.2)) ++
          packetsOf n next := by
      by_cases hempty : next = []
      · rw [hreplies, if_pos hempty, hempty]
        simp [packetsOf]
      · rw [hreplies, if_neg hempty]
        simp [XcbMap.put]
    rw [waiting_eq, waiting_eq, hmap, hnodes]
    simp only [List.flatMap_append, List.flatMap_cons, packetsOf_append, packetsOf_cons n head]
    by_cases hn : k = n
    · -- the node is the only one of its request
      subst hn
      rw [packetsOf_flatMap_eq_nil fun node hmem => hothers node (List.mem_append_left _ hmem),
        packetsOf_flatMap_eq_nil fun node hmem => hothers node (List.mem_append_right _ hmem)]
      simp
    · have hnil : packetsOf n next = [] := packetsOf_eq_nil fun b hb => by
        rw [hnext b hb]
        exact hn
      rw [hhead, if_neg hn, hnil]
      simp

/-- **A poll** takes one packet from the front of one queue, or none. -/
theorem pollForReply (h : c.Filed last) (hread : c.requestRead = BitVec.ofNat 64 last)
    (request : BitVec 32) :
    (c.pollForReply request).2.Filed last ∧
      (∀ b ∈ (c.pollForReply request).1.join,
        request = BitVec.ofNat 32 b.packet.body.number) ∧
      ∀ n, c.waiting n = packetsOf n (c.pollForReply request).1.join.toList ++
        (c.pollForReply request).2.waiting n := by
  have hnothing : c.Filed last ∧ (∀ b ∈ (none : Option (Buffer Stamp)),
      request = BitVec.ofNat 32 b.packet.body.number) ∧
      ∀ n, c.waiting n = packetsOf n (none : Option (Buffer Stamp)).toList ++ c.waiting n :=
    ⟨h, fun b hb => (Option.not_mem_none b hb).elim, fun n => rfl⟩
  unfold XcbIn.pollForReply
  split
  · exact hnothing
  · split
    · rcases c.replies.remove_cases request with ⟨data, before, after, hnodes, hremove⟩ |
        ⟨-, hremove⟩
      · obtain ⟨k, -, hof⟩ := h.node (request, data) (by rw [hnodes]; simp)
        obtain ⟨head, next, rfl⟩ := List.exists_cons_of_ne_nil hof.ne_nil
        rw [hremove]
        obtain ⟨hfiled, hkey, hwaiting⟩ := h.putBack hnodes rfl
        exact ⟨hfiled, by rintro b ⟨⟩; exact hkey, hwaiting⟩
      · rw [hremove]
        exact hnothing
    · split
      · next hcurrent =>
        obtain ⟨hsame, hne⟩ := hcurrent
        obtain ⟨head, tail, hcons⟩ := List.exists_cons_of_ne_nil hne
        have hhead : head.packet.body.number = last := h.current head (by rw [hcons]; simp)
        rw [hcons]
        refine ⟨⟨h.node, h.distinct, fun b hb =>
          h.current b (by rw [hcons]; exact List.mem_cons_of_mem _ hb)⟩, ?_, ?_⟩
        · rintro b ⟨⟩
          rw [hhead, ← low32_ofNat, ← hread]
          exact eq_of_sequenceCompare32_eq_zero hsame
        · intro n
          rw [waiting_eq, waiting_eq, hcons]
          change _ ++ packetsOf n (head :: tail) = packetsOf n [head] ++ (_ ++ packetsOf n tail)
          by_cases hn : head.packet.body.number = n
          · rw [packetsOf_flatMap_eq_nil fun node hnode b hb => by
              have := h.number_lt hnode hb
              omega]
            simp [packetsOf_cons]
          · simp [packetsOf, hn]
      · split <;> exact hnothing

/-- A poll that hands back nothing finds its own queue empty. -/
theorem waiting_eq_nil (h : c.Filed last) (hread : c.requestRead = BitVec.ofNat 64 last)
    (hnear : n < last + 2 ^ 31 ∧ last < n + 2 ^ 31)
    (hfits : Serial.Fits (BitVec.ofNat 32 n) (low32 c.requestRead)) (hzero : BitVec.ofNat 32 n ≠ 0)
    (hnone : (c.pollForReply (BitVec.ofNat 32 n)).1.join = none) : c.waiting n = [] := by
  have hcompare : sequenceCompare32 (BitVec.ofNat 32 n) (low32 c.requestRead) = (n : ℤ) - last := by
    rw [hread, low32_ofNat] at hfits ⊢
    exact sequenceCompare32_ofNat hfits (by omega) (by omega)
  rw [waiting_eq]
  rw [XcbIn.pollForReply, if_neg hzero, hcompare] at hnone
  by_cases hlt : n < last
  · have hcurrent : packetsOf n c.currentReply = [] := packetsOf_eq_nil fun b hb => by
      rw [h.current b hb]
      omega
    rw [hcurrent, List.append_nil]
    refine packetsOf_flatMap_eq_nil fun node hnode b hb hnumber => ?_
    obtain ⟨k, hk, hof⟩ := h.node node hnode
    rw [if_pos (by omega)] at hnone
    rcases c.replies.remove_cases (BitVec.ofNat 32 n) with
      ⟨data, before, after, hnodes, hremove⟩ | ⟨hkeys, -⟩
    · obtain ⟨k', -, hof'⟩ := h.node (BitVec.ofNat 32 n, data) (by rw [hnodes]; simp)
      obtain ⟨head, next, rfl⟩ := List.exists_cons_of_ne_nil hof'.ne_nil
      rw [hremove] at hnone
      cases hnone
    · exact hkeys node hnode (by rw [hof.key, ← hof.number b hb, hnumber])
  · rw [packetsOf_flatMap_eq_nil fun node hnode b hb => by
      have := h.number_lt hnode hb
      omega, List.nil_append]
    refine packetsOf_eq_nil fun b hb hnumber => ?_
    have hsame : n = last := by rw [← h.current b hb, hnumber]
    obtain ⟨head, tail, hcons⟩ := List.exists_cons_of_ne_nil (List.ne_nil_of_mem hb)
    rw [if_neg (by omega), if_pos ⟨by omega, List.ne_nil_of_mem hb⟩, hcons] at hnone
    cases hnone

/-- **Reading a packet** files what was read before. -/
theorem readPacket (h : c.Filed last) (hread : c.requestRead = BitVec.ofNat 64 last)
    {p : Packet Stamp} (hle : last ≤ p.body.number)
    (hnear : p.isKeymapNotify = false → p.body.number < last + 2 ^ 16 ∧
      widenSequence c.requestRead p.sequence = BitVec.ofNat 64 p.body.number) :
    (c.readPacket p).1.Filed (Session.nextRead last p) := by
  rw [XcbIn.readPacket_fst, Session.nextRead]
  cases hkey : p.isKeymapNotify with
  | true =>
    have hroute : route (c.matchPending p) p ≠ .replyStore := by
      have hanswer : p.isAnswer = false := by
        by_contra hanswer
        rw [isKeymapNotify_of_isAnswer (Bool.not_eq_false _ ▸ hanswer)] at hkey
        cases hkey
      simp only [Packet.isAnswer, Bool.or_eq_false_iff] at hanswer
      simp [XcbIn.matchPending, route, hanswer]
    simp only [XcbIn.advance_of_keymapNotify _ _ hkey, hroute, if_false]
    exact ⟨h.node, h.distinct, h.current⟩
  | false =>
    obtain ⟨hlt, hwiden⟩ := hnear hkey
    have hadvance : (c.advance p).Filed p.body.number := by
      rw [XcbIn.advance_of_not_keymapNotify _ _ hkey, hwiden]
      simp only [XcbIn.advanceRead, hread]
      by_cases hsame : p.body.number = last
      · rw [hsame]
        simp only [ne_eq, not_true_eq_false, false_and, if_false]
        exact ⟨h.node, h.distinct, h.current⟩
      · have hne : BitVec.ofNat 64 p.body.number ≠ BitVec.ofNat 64 last := fun heq =>
          hsame ((Serial.ofNat_inj (by omega) (by omega)).mp heq)
        have hnode : ∀ node ∈ c.replies.nodes, ∃ k < p.body.number, NodeOf k node := by
          intro node hnode
          obtain ⟨k, hk, hof⟩ := h.node node hnode
          exact ⟨k, by omega, hof⟩
        simp only [hne, ne_eq, not_false_eq_true, true_and, if_true]
        by_cases hempty : c.currentReply = []
        · simp only [hempty, not_true_eq_false, if_false]
          exact ⟨hnode, h.distinct, fun b hb => absurd hb List.not_mem_nil⟩
        · simp only [hempty, not_false_eq_true, if_true]
          refine ⟨?_, ?_, fun b hb => absurd hb List.not_mem_nil⟩
          · intro node hmem
            rcases List.mem_append.mp hmem with hmem | hmem
            · exact hnode node hmem
            · rw [List.mem_singleton.mp hmem]
              exact ⟨last, by omega, low32_ofNat last, hempty, h.current⟩
          · refine List.pairwise_append.mpr ⟨h.distinct, List.pairwise_singleton _ _, ?_⟩
            intro m hm node hmem b hb b' hb'
            rw [List.mem_singleton.mp hmem] at hb'
            rw [h.current b' hb']
            exact Nat.ne_of_lt (h.number_lt hm hb)
    refine ⟨hadvance.node, hadvance.distinct, ?_⟩
    intro b hb
    change b ∈ (if _ then (c.advance p).currentReply ++ [_] else (c.advance p).currentReply) at hb
    rw [if_neg Bool.false_ne_true]
    split at hb
    · rcases List.mem_append.mp hb with hb | hb
      · exact hadvance.current b hb
      · rw [List.mem_singleton.mp hb]
        rfl
    · exact hadvance.current b hb

end XcbIn.Filed

/-- Nothing to hand back, and the packets of the request are not all there. -/
theorem pollForReply_of_none {c : XcbIn τ Stamp} {request : BitVec 32}
    (h : (c.pollForReply request).1 = none) :
    0 ≤ sequenceCompare32 request (low32 c.requestRead) ∧ request ≠ low32 c.requestCompleted := by
  unfold XcbIn.pollForReply at h
  split at h
  · cases h
  · split at h
    · split at h <;> cases h
    · next hlt =>
      split at h
      · cases h
      · split at h
        · cases h
        · next hne =>
          refine ⟨by omega, fun heq => hne ?_⟩
          rw [heq]
          exact sequenceCompare32_self _

/-- Nothing to hand back, and nothing will come. -/
theorem pollForReply_of_some_none {c : XcbIn τ Stamp} {request : BitVec 32} (hzero : request ≠ 0)
    (h : (c.pollForReply request).1 = some none) :
    sequenceCompare32 request (low32 c.requestRead) < 0 ∨ request = low32 c.requestCompleted := by
  unfold XcbIn.pollForReply at h
  rw [if_neg hzero] at h
  split at h
  · next hlt => exact .inl hlt
  · split at h
    · next hcurrent =>
      obtain ⟨head, tail, hcons⟩ := List.exists_cons_of_ne_nil hcurrent.2
      rw [hcons] at h
      cases h
    · split at h
      · next heq => exact .inr (eq_of_sequenceCompare32_eq_zero heq)
      · cases h

namespace Session

variable {s t : Session} {n : ℕ} {rs : List (Ranges.Range Handling)}

/-! ### Deliveries -/

/-- The packets that polls for request `n` have handed back. -/
def delivered (s : Session) (n : ℕ) : List (Packet Stamp) :=
  s.log.filterMap fun
    | .poll cookie result => if cookie = n then result.join.map Buffer.packet else none
    | _ => none

/-- The packets for the reply store that have been read for request `n`. -/
def arrived (s : Session) (n : ℕ) : List (Packet Stamp) :=
  s.reads.filter fun p => p.body.number = n ∧ s.routeOf p = .replyStore

/-- A caller may poll for this request: it is less than `2 ^ 31` away from `request_read`, and
no uncollected reply is older than that. -/
structure Pollable (s : Session) (cookie : ℕ) : Prop where
  lt_read : cookie < s.conn.inp.requestRead.toNat + 2 ^ 31
  read_lt : s.conn.inp.requestRead.toNat < cookie + 2 ^ 31
  young : ∀ b ∈ s.conn.inp.stored, s.conn.inp.requestRead.toNat ≤ b.packet.body.number + 2 ^ 31

/-- The low bits of this request and of `request_read` can be subtracted as `int`s. -/
def Comparable (s : Session) (cookie : ℕ) : Prop :=
  Serial.Fits (BitVec.ofNat 32 cookie) (low32 s.conn.inp.requestRead)

/-- Then they are in the order of the requests. -/
theorem Comparable.compare (h : s.Comparable n) (hstamped : s.Stamped)
    (hlt : n < s.lastRead + 2 ^ 31) (hgt : s.lastRead < n + 2 ^ 31) :
    sequenceCompare32 (BitVec.ofNat 32 n) (low32 s.conn.inp.requestRead) =
      (n : ℤ) - s.lastRead := by
  rw [Comparable, hstamped.requestRead, low32_ofNat] at h
  rw [hstamped.requestRead, low32_ofNat]
  exact sequenceCompare32_ofNat h (by omega) (by omega)

/-- Delivery to the callers that poll for request `n` is exact. -/
structure Delivers (s : Session) (n : ℕ) : Prop where
  /-- What they got and what waits for them is what arrived, in this order. -/
  exact : s.delivered n ++ s.conn.inp.waiting n = s.arrived n
  /-- When a poll says that there is nothing more, nothing more will arrive. -/
  finished : s.Pollable n → s.Comparable n →
    (s.conn.inp.pollForReply (BitVec.ofNat 32 n)).1 = some none →
    s.conn.inp.waiting n = [] ∧
      ∀ ok t, Transition.Reach Session.step ok (s.poll n) t → t.arrived n = s.arrived n
  /-- When a poll says that there may be more, nothing has been read that rules it out. -/
  pending : s.Pollable n → s.Comparable n →
    (s.conn.inp.pollForReply (BitVec.ofNat 32 n)).1 = none →
    s.conn.inp.waiting n = [] ∧ s.errorRead n = false ∧
      ∀ p ∈ s.reads, p.isKeymapNotify = false → p.body.number ≤ n

/-- No handoff, no `xcb_discard_reply`, fewer than `2 ^ 63 - 1` requests in flight, and whoever
polls with the low bits of `n` does so in time. -/
structure Collecting (n : ℕ) (s : Session) (a : Action) : Prop where
  discard : a.isDiscard = false
  handoff : a.isHandoff = false
  close : a = .read → s.Close
  pollable : ∀ cookie, a = .poll cookie → BitVec.ofNat 32 cookie = BitVec.ofNat 32 n →
    s.Pollable cookie

/-- Between two steps. -/
structure Delivering (s : Session) (n : ℕ) : Prop where
  filed : s.conn.inp.Filed s.lastRead
  exact : s.delivered n ++ s.conn.inp.waiting n = s.arrived n

theorem arrived_of_reads (hserved : s.Served) {new : List Request}
    (hnew : t.requests = s.requests ++ new) (hreads : t.reads = s.reads) :
    t.arrived n = s.arrived n := by
  rw [arrived, hreads]
  refine List.filter_congr fun p hp => ?_
  have hle := hserved.le_handled p (List.mem_append_left _ hp)
  rw [routeOf_append hnew (hle.trans hserved.handled_le)]

/-- Steps that neither read a packet nor hand one back. -/
theorem Delivering.of_reads (h : s.Delivering n) (hserved : s.Served) {new : List Request}
    (hnew : t.requests = s.requests ++ new) (hreads : t.reads = s.reads)
    (hdelivered : t.delivered n = s.delivered n)
    (hreplies : t.conn.inp.replies = s.conn.inp.replies)
    (hcurrent : t.conn.inp.currentReply = s.conn.inp.currentReply) : t.Delivering n := by
  refine ⟨⟨?_, ?_, ?_⟩, ?_⟩
  · rw [hreplies, lastRead_of_reads hreads]
    exact h.filed.node
  · rw [hreplies]
    exact h.filed.distinct
  · rw [hcurrent, lastRead_of_reads hreads]
    exact h.filed.current
  · rw [arrived_of_reads hserved hnew hreads, hdelivered, XcbIn.waiting, XcbIn.stored, hreplies,
      hcurrent]
    exact h.exact

/-- A packet that waits is not later than the one read last. -/
theorem number_le_of_mem_stored (h : s.conn.inp.Filed s.lastRead) {b : Buffer Stamp}
    (hb : b ∈ s.conn.inp.stored) : b.packet.body.number ≤ s.lastRead := by
  rcases List.mem_append.mp hb with hb | hb
  · obtain ⟨node, hnode, hb⟩ := List.mem_flatMap.mp hb
    exact (h.number_lt hnode hb).le
  · exact (h.current b hb).le

/-- What a poll in time hands back is the caller's. -/
theorem number_of_pollable (h : s.conn.inp.Filed s.lastRead) (hstamped : s.Stamped)
    (hlt : s.requests.length < 2 ^ 64) {cookie : ℕ} (hpoll : s.Pollable cookie) {b : Buffer Stamp}
    (hb : b ∈ (s.conn.inp.pollForReply (BitVec.ofNat 32 cookie)).1.join) :
    b.packet.body.number = cookie := by
  obtain ⟨-, hkey, hwaiting⟩ := h.pollForReply hstamped.requestRead (BitVec.ofNat 32 cookie)
  have hread := hstamped.toNat_requestRead hlt
  obtain ⟨b', hb', hsame⟩ : ∃ b' ∈ s.conn.inp.stored, b'.packet = b.packet := by
    have hmem : b.packet ∈ s.conn.inp.waiting b.packet.body.number := by
      rw [hwaiting, Option.mem_def.mp hb]
      simp [packetsOf]
    exact List.mem_map.mp (List.mem_filter.mp hmem).1
  have hold := hpoll.young b' hb'
  have hle := number_le_of_mem_stored h hb'
  have hlow := hpoll.lt_read
  have hhigh := hpoll.read_lt
  rw [hsame] at hold hle
  exact ((Serial.ofNat_inj (by omega) (by omega)).mp (hkey b hb)).symm

/-- A poll. -/
theorem Delivering.poll (h : s.Delivering n) (hstamped : s.Stamped)
    (hlt : s.requests.length < 2 ^ 64) {cookie : ℕ}
    (hpoll : BitVec.ofNat 32 cookie = BitVec.ofNat 32 n → s.Pollable cookie) :
    (s.poll cookie).Delivering n := by
  obtain ⟨hfiled, hkey, hwaiting⟩ :=
    h.filed.pollForReply hstamped.requestRead (BitVec.ofNat 32 cookie)
  have hreads := reads_poll s cookie
  have harrived : (s.poll cookie).arrived n = s.arrived n :=
    arrived_of_reads hstamped.served (List.append_nil _).symm hreads
  refine ⟨by rw [lastRead_of_reads hreads]; exact hfiled, ?_⟩
  rw [harrived, ← h.exact, hwaiting n, ← List.append_assoc]
  congr 1
  change (s.log ++ [Observation.poll cookie
    (s.conn.inp.pollForReply (BitVec.ofNat 32 cookie)).1]).filterMap _ = _
  rw [List.filterMap_append, delivered]
  congr 1
  cases hresult : (s.conn.inp.pollForReply (BitVec.ofNat 32 cookie)).1.join with
  | none => simp [hresult]
  | some b =>
    have hb : b ∈ (s.conn.inp.pollForReply (BitVec.ofNat 32 cookie)).1.join := hresult
    by_cases hcookie : cookie = n
    · subst hcookie
      have hnumber := number_of_pollable h.filed hstamped hlt (hpoll rfl) hb
      simp [hresult, packetsOf, hnumber]
    · have hne : b.packet.body.number ≠ n := by
        intro hnumber
        have hsame := hkey b hb
        rw [hnumber] at hsame
        exact hcookie
          ((number_of_pollable h.filed hstamped hlt (hpoll hsame) hb).symm.trans hnumber)
      simp [packetsOf, hcookie, hne]

/-- A packet is read. -/
theorem Delivering.read (h : s.Delivering n) (hstamped : s.Stamped) {p : Packet Stamp}
    {wire : List (Packet Stamp)} (hwire : s.wire = p :: wire)
    (hnear : p.isKeymapNotify = false → p.body.number < s.lastRead + 2 ^ 16)
    (hroute : route ((s.conn.inp.advance p).matchPending p) p = s.routeOf p) :
    (s.read p wire).Delivering n := by
  have hp : p ∈ s.wire := by
    rw [hwire]
    exact List.mem_cons_self
  refine ⟨?_, ?_⟩
  · rw [lastRead_read]
    exact h.filed.readPacket hstamped.requestRead (hstamped.served.lastRead_le hp) fun hkey =>
      ⟨hnear hkey, hstamped.widen hp hkey (hnear hkey)⟩
  · have hdelivered : (s.read p wire).delivered n = s.delivered n := by
      change (s.log ++ [Observation.read p]).filterMap _ = _
      rw [List.filterMap_append, delivered]
      exact List.append_nil _
    have harrived : (s.read p wire).arrived n = s.arrived n ++
        if p.body.number = n ∧ s.routeOf p = .replyStore then [p] else [] := by
      change (s.read p wire).reads.filter
        (fun p => p.body.number = n ∧ s.routeOf p = .replyStore) = _
      rw [reads_read, List.filter_append, arrived]
      by_cases hcond : p.body.number = n ∧ s.routeOf p = .replyStore <;> simp [hcond]
    have hwaiting : (s.read p wire).conn.inp.waiting n = s.conn.inp.waiting n ++
        if p.body.number = n ∧ s.routeOf p = .replyStore then [p] else [] := by
      change packetsOf n (s.conn.inp.readPacket p).1.stored = _
      rw [XcbIn.stored_readPacket, hroute, packetsOf_append, XcbIn.waiting]
      congr 1
      by_cases hstore : s.routeOf p = .replyStore
      · by_cases hnumber : p.body.number = n <;>
          simp [hstore, hnumber, packetsOf, XcbIn.buffer]
      · simp [hstore]
    rw [hdelivered, harrived, hwaiting, ← h.exact, List.append_assoc]

/-- One step, by its action. -/
theorem delivering_step {a : Action} (h : s.Delivering n) (htab : s.Tabled rs)
    (hattributed : Attributed s a) (hok : Collecting n s a) (hlt : s.requests.length < 2 ^ 64)
    (hstep : s.step a = some t) : t.Delivering n := by
  have hserved := htab.served
  have hnil : s.requests = s.requests ++ [] := (List.append_nil _).symm
  cases step_cases hstep with
  | send =>
    rw [number_eq]
    refine h.of_reads hserved rfl rfl rfl ?_ ?_ <;> rw [numberRequest_fst] <;> rfl
  | takeSocket => cases hok.handoff
  | writev => cases hok.handoff
  | getSocketBack => cases hok.handoff
  | @poll cookie => exact h.poll htab.toStamped hlt (hok.pollable cookie rfl)
  | getEvent =>
    refine h.of_reads hserved hnil (reads_getEvent s) ?_ ?_ ?_
    · simp [delivered, Session.getEvent]
    · simp [Session.getEvent, XcbIn.getEvent_snd]
    · simp [Session.getEvent, XcbIn.getEvent_snd]
  | discard => cases hok.discard
  | @read p wire hwire =>
    have hp : p ∈ s.wire.head? := by rw [hwire]; rfl
    have hnear := hattributed.near rfl p hp
    exact h.read htab.toStamped hwire hnear (htab.route_eq hwire hnear (hattributed.close rfl)
      (hattributed.attributed rfl p hp))
  | _ => exact h.of_reads hserved hnil rfl rfl rfl rfl

/-! ### The end of the deliveries -/

/-- A later packet has been read, or the error of request `n`. -/
def Settled (s : Session) (n : ℕ) : Prop := n < s.lastRead ∨ s.errorRead n = true

theorem Settled.of_reads (h : s.Settled n) (hreads : t.reads = s.reads) : t.Settled n := by
  rw [Settled, lastRead_of_reads hreads, errorRead, hreads]
  exact h

theorem isAnswer_of_routeOf {p : Packet Stamp} (h : s.routeOf p = .replyStore) :
    p.isAnswer = true := by
  unfold routeOf at h
  split at h
  · cases h
  · split at h
    · next hcond =>
      simp only [Bool.or_eq_true, Bool.and_eq_true] at hcond
      simp only [Packet.isAnswer, Bool.or_eq_true]
      exact hcond.imp_right And.left
    · cases h

/-- Then nothing else for it is read, whatever happens. -/
theorem settled_step {a : Action} (hserved : s.Served) (h : s.Settled n)
    (hstep : s.step a = some t) : t.Settled n ∧ t.arrived n = s.arrived n := by
  have hnil : s.requests = s.requests ++ [] := (List.append_nil _).symm
  cases step_cases hstep with
  | send =>
    rw [number_eq]
    exact ⟨h.of_reads rfl, arrived_of_reads hserved rfl rfl⟩
  | writev => exact ⟨h.of_reads rfl, arrived_of_reads hserved rfl rfl⟩
  | @poll cookie =>
    have hreads := reads_poll s cookie
    exact ⟨h.of_reads hreads, arrived_of_reads hserved hnil hreads⟩
  | getEvent =>
    have hreads := reads_getEvent s
    exact ⟨h.of_reads hreads, arrived_of_reads hserved hnil hreads⟩
  | @read p wire hwire =>
    have hp : p ∈ s.wire := by
      rw [hwire]
      exact List.mem_cons_self
    have hle := hserved.lastRead_le hp
    refine ⟨?_, ?_⟩
    · rcases h with hlater | herror
      · left
        rw [lastRead_read, nextRead]
        split <;> omega
      · right
        rw [errorRead_read, herror, Bool.true_or]
    · change (s.read p wire).reads.filter
        (fun p => p.body.number = n ∧ s.routeOf p = .replyStore) = _
      rw [reads_read, List.filter_append, arrived]
      have hnot : ¬ (p.body.number = n ∧ s.routeOf p = .replyStore) := by
        rintro ⟨hnumber, hroute⟩
        rcases h with hlater | herror
        · omega
        · obtain ⟨q, hq, hqerror, hqn⟩ := errorRead_iff.mp herror
          have := (List.pairwise_append.mp hserved.final).2.2 q hq p hp hqerror
            (isAnswer_of_routeOf hroute)
          omega
      simp [hnot]
  | _ => exact ⟨h.of_reads rfl, arrived_of_reads hserved hnil rfl⟩

theorem Settled.arrived_eq {ok : Session → Action → Prop} (hserved : s.Served) (h : s.Settled n)
    (hreach : Transition.Reach Session.step ok s t) : t.arrived n = s.arrived n := by
  have hinv : t.Served ∧ t.Settled n ∧ t.arrived n = s.arrived n := by
    refine hreach.invariant (P := fun t => t.Served ∧ t.Settled n ∧ t.arrived n = s.arrived n) ?_
      ⟨hserved, h, rfl⟩
    rintro u a v ⟨hu, hsettled, harrived⟩ - hstep
    obtain ⟨hsettled', harrived'⟩ := settled_step hu hsettled hstep
    exact ⟨served_step hu hstep, hsettled', harrived'.trans harrived⟩
  exact hinv.2.2

/-! ### The result -/

theorem delivering_of_reach {size : ℕ} {maximum : BitVec 16}
    (h : Transition.Reach Session.step (Collecting n) (Session.init size maximum) s)
    (hlt : s.requests.length < 2 ^ 64) : s.Delivering n ∧ ∃ rs, s.Tabled rs := by
  have hboth := (attributed_of_close h (fun _ _ hok => ⟨hok.discard, hok.handoff, hok.close⟩) hlt).1
  clear h
  induction hboth with
  | refl =>
    refine ⟨⟨⟨?_, .nil, ?_⟩, rfl⟩, [], tabled_init size maximum⟩
    · intro node hnode
      cases hnode
    · intro b hb
      cases hb
  | tail _ hok hstep ih =>
    have hlen := length_requests_le hstep
    obtain ⟨hdelivering, rs, htab⟩ := ih (by omega)
    exact ⟨delivering_step hdelivering htab hok.1 hok.2 (by omega) hstep,
      tabled_step ⟨rs, htab⟩ hok.1 hstep⟩

/-- A poll that says that there may be more. -/
theorem pending_of_poll (hfiled : s.conn.inp.Filed s.lastRead) (hstamped : s.Stamped)
    (hlt : n < s.lastRead + 2 ^ 31) (hgt : s.lastRead < n + 2 ^ 31) (hcomparable : s.Comparable n)
    (hzero : BitVec.ofNat 32 n ≠ 0)
    (hnone : (s.conn.inp.pollForReply (BitVec.ofNat 32 n)).1 = none) :
    s.conn.inp.waiting n = [] ∧ ¬ s.Settled n := by
  obtain ⟨hge, hne⟩ := pollForReply_of_none hnone
  rw [hcomparable.compare hstamped hlt hgt] at hge
  refine ⟨hfiled.waiting_eq_nil hstamped.requestRead ⟨hlt, hgt⟩ hcomparable hzero
    (by rw [hnone]; rfl), ?_⟩
  rintro (hlater | herror)
  · omega
  · obtain ⟨q, hq, hqerror, hqn⟩ := errorRead_iff.mp herror
    have hanswer : q.isAnswer = true := by rw [Packet.isAnswer, hqerror, Bool.or_true]
    have hle := hstamped.served.le_lastRead hq (isKeymapNotify_of_isAnswer hanswer)
    have hsame : n = s.lastRead := by omega
    refine hne ?_
    rw [hstamped.requestCompleted, low32_ofNat, lastCompleted, ← hsame, herror, if_pos rfl]

/-- A poll that says that there is nothing more. -/
theorem finished_of_poll (hfiled : s.conn.inp.Filed s.lastRead) (hstamped : s.Stamped)
    (hlt : n < s.lastRead + 2 ^ 31) (hgt : s.lastRead < n + 2 ^ 31) (hcomparable : s.Comparable n)
    (hzero : BitVec.ofNat 32 n ≠ 0)
    (hnone : (s.conn.inp.pollForReply (BitVec.ofNat 32 n)).1 = some none) :
    s.conn.inp.waiting n = [] ∧ s.Settled n := by
  refine ⟨hfiled.waiting_eq_nil hstamped.requestRead ⟨hlt, hgt⟩ hcomparable hzero
    (by rw [hnone]; rfl), ?_⟩
  rcases pollForReply_of_some_none hzero hnone with hbelow | heq
  · rw [hcomparable.compare hstamped hlt hgt] at hbelow
    exact .inl (by omega)
  · have hcompleted := s.lastCompleted_le
    have hlast := s.lastRead_le_succ
    rw [hstamped.requestCompleted, low32_ofNat, Serial.ofNat_inj (by omega) (by omega)] at heq
    have hpos : n ≠ 0 := by
      rintro rfl
      exact hzero rfl
    rcases Bool.eq_false_or_eq_true (s.errorRead s.lastRead) with herror | hnot
    · rw [lastCompleted, herror, if_pos rfl] at heq
      exact .inr (by rw [heq, herror])
    · rw [lastCompleted, hnot, if_neg Bool.false_ne_true] at heq
      exact .inl (by omega)

/-- **Reply delivery is exact.** -/
theorem delivers_of_reach {size : ℕ} {maximum : BitVec 16} (hzero : BitVec.ofNat 32 n ≠ 0)
    (h : Transition.Reach Session.step (Collecting n) (Session.init size maximum) s)
    (hlt : s.requests.length < 2 ^ 64) : s.Delivers n := by
  obtain ⟨hdelivering, rs, htab⟩ := delivering_of_reach h hlt
  have hserved := htab.served
  have hread := htab.toNat_requestRead hlt
  have hnear : s.Pollable n → n < s.lastRead + 2 ^ 31 ∧ s.lastRead < n + 2 ^ 31 := by
    intro hpoll
    have hlow := hpoll.lt_read
    have hhigh := hpoll.read_lt
    rw [hread] at hlow hhigh
    exact ⟨hlow, hhigh⟩
  refine ⟨hdelivering.exact, ?_, ?_⟩
  · intro hpoll hcomparable hnone
    obtain ⟨hlow, hhigh⟩ := hnear hpoll
    obtain ⟨hempty, hsettled⟩ :=
      finished_of_poll hdelivering.filed htab.toStamped hlow hhigh hcomparable hzero hnone
    refine ⟨hempty, ?_⟩
    intro ok t hreach
    have hreads := reads_poll s n
    have hpolled : (s.poll n).Served := hserved.of_client (List.append_nil _).symm rfl (by
      rw [packets, hreads]
      rfl)
    rw [(hsettled.of_reads hreads).arrived_eq hpolled hreach]
    exact arrived_of_reads hserved (List.append_nil _).symm hreads
  · intro hpoll hcomparable hnone
    obtain ⟨hlow, hhigh⟩ := hnear hpoll
    obtain ⟨hempty, hunsettled⟩ :=
      pending_of_poll hdelivering.filed htab.toStamped hlow hhigh hcomparable hzero hnone
    simp only [Settled, not_or, not_lt, Bool.not_eq_true] at hunsettled
    refine ⟨hempty, hunsettled.2, ?_⟩
    intro p hp hkey
    exact (hserved.le_lastRead hp hkey).trans hunsettled.1

/-- The error of a single request goes to the event queue, and a poll for it returns at once. -/
theorem delivers_word : (oneWord.poll 1).Delivers 1 := by
  have hok : AllowsWords fun _ a => a.isDiscard = false ∧ a.isHandoff = false ∧
      ∀ cookie, a ≠ .poll cookie :=
    ⟨fun _ _ _ => ⟨rfl, rfl, fun _ h => by cases h⟩, fun _ => ⟨rfl, rfl, fun _ h => by cases h⟩,
      fun _ => ⟨rfl, rfl, fun _ h => by cases h⟩, fun _ _ => ⟨rfl, rfl, fun _ h => by cases h⟩,
      fun _ => ⟨rfl, rfl, fun _ h => by cases h⟩⟩
  have hlength := words_oneWord.length
  have hreach : Transition.Reach Session.step (Collecting 1) _ _ :=
    reach_of_length_le (reach_oneWord hok) fun t a hle hok => ⟨hok.1, hok.2.1, fun _ => by
      unfold Close
      omega, fun cookie hpoll => absurd hpoll (hok.2.2 cookie)⟩
  have hpoll : oneWord.step (.poll 1) = some (oneWord.poll 1) := by
    simp [Session.step, words_oneWord.hasError]
  have hpollable : oneWord.Pollable 1 := by
    refine ⟨?_, ?_, fun b _ => ?_⟩ <;> rw [words_oneWord.requestRead] <;> norm_num
  have hcollecting : Collecting 1 oneWord (.poll 1) := by
    refine ⟨rfl, rfl, fun h => (by cases h), ?_⟩
    rintro cookie ⟨rfl⟩ -
    exact hpollable
  have hsame : ∀ s : Session, (s.poll 1).requests = s.requests := fun _ => rfl
  have hlt : (oneWord.poll 1).requests.length < 2 ^ 64 := by
    rw [hsame, hlength]
    norm_num
  exact delivers_of_reach (by decide) (hreach.tail hcollecting hpoll) hlt

/-! ### The window is needed -/

/-- Requests without flags, and a server that answers nothing but errors. -/
def Plain : Action → Prop
  | .send call _ => call.flags = 0
  | .emit responseType _ _ => responseType = xcbError
  | .flush | .handle | .read => True
  | _ => False

/-- In such a run there is never anything to collect. -/
structure Uncollected (s : Session) : Prop where
  stored : s.conn.inp.stored = []
  unchecked : ∀ pend ∈ s.conn.inp.pendingReplies, hasFlag pend.flags requestChecked = false
  wire : ∀ p ∈ s.wire, p.isReply = false

theorem uncollected_step {a : Action} (h : s.Uncollected) (hok : Plain a)
    (hstep : s.step a = some t) : t.Uncollected := by
  cases step_cases hstep with
  | @send call fails req _ _ _ _ _ _ hreq =>
    rw [number_eq]
    refine ⟨?_, ?_, h.wire⟩
    · change (s.conn.numberRequest req).1.inp.stored = []
      rw [numberRequest_fst]
      exact h.stored
    · change ∀ pend ∈ (s.conn.numberRequest req).1.inp.pendingReplies, _
      rw [numberRequest_fst]
      intro pend hpend
      rcases List.mem_append.mp hpend with hpend | hpend
      · rcases List.mem_append.mp hpend with hpend | hpend
        · exact h.unchecked pend hpend
        · rw [flags_of_mem_pendingSyncs hpend]
          rfl
      · unfold PreparedRequest.pending at hpend
        split at hpend
        · rw [List.mem_singleton.mp hpend, flags_of_prepare hreq, show call.flags = 0 from hok]
          change hasFlag (0 &&& ~~~requestRaw) requestChecked = false
          decide
        · cases hpend
  | emit =>
    refine ⟨h.stored, h.unchecked, ?_⟩
    intro p hp
    rcases List.mem_append.mp hp with hp | hp
    · exact h.wire p hp
    · rw [List.mem_singleton.mp hp, show _ = xcbError from hok]
      rfl
  | @read p wire hwire =>
    have hpending : ∀ pend ∈ (s.conn.inp.advance p).pendingReplies,
        hasFlag pend.flags requestChecked = false := by
      intro pend hpend
      refine h.unchecked pend ?_
      cases hkey : p.isKeymapNotify with
      | true => rwa [XcbIn.advance_of_keymapNotify _ _ hkey] at hpend
      | false =>
        rw [XcbIn.advance_pendingReplies _ _ hkey] at hpend
        exact (List.dropWhile_sublist _).subset hpend
    have hroute : route ((s.conn.inp.advance p).matchPending p) p ≠ .replyStore := by
      have hreply : p.isReply = false := h.wire p (by rw [hwire]; exact List.mem_cons_self)
      unfold route
      split
      · nofun
      · rw [hreply, Bool.false_or, if_neg]
        · nofun
        · simp only [XcbIn.matchPending, Bool.and_eq_true, Option.any_eq_true, not_and]
          rintro - ⟨pend, hmatch, hchecked⟩
          split at hmatch
          · have hhead := (Option.filter_eq_some_iff.mp hmatch).1
            rw [hpending pend (List.mem_of_mem_head? hhead)] at hchecked
            cases hchecked
          · cases hmatch
    refine ⟨?_, ?_, fun q hq => h.wire q (by rw [hwire]; exact List.mem_cons_of_mem _ hq)⟩
    · change (s.conn.inp.readPacket p).1.stored = []
      rw [XcbIn.stored_readPacket, h.stored, if_neg hroute]
      rfl
    · change ∀ pend ∈ (s.conn.inp.readPacket p).1.pendingReplies, _
      rw [pendingReplies_readPacket]
      exact hpending
  | takeSocket => cases hok
  | writev => cases hok
  | getSocketBack => cases hok
  | poll => cases hok
  | getEvent => cases hok
  | discard => cases hok
  | _ => exact ⟨h.stored, h.unchecked, h.wire⟩

/-- Without the bound on the requests in flight, an error has been read and a poll says that there
may be more. -/
theorem not_delivers_desync :
    ∃ s : Session, Transition.Reach Session.step (fun s a => a.isDiscard = false ∧
        a.isHandoff = false ∧ ∀ cookie, a = .poll cookie → s.Pollable cookie)
        (Session.init 16384 65535) s ∧
      s.requests.length < 2 ^ 64 ∧ ¬ s.Delivers (2 ^ 63 + 65538) := by
  have hok : AllowsWords fun _ a => Plain a :=
    ⟨fun _ isvoid _ => rfl, fun _ => trivial, fun _ => trivial, fun _ _ => rfl, fun _ => trivial⟩
  obtain ⟨s, hreach, hhandled, expected, hs⟩ := exists_desync hok 16384
  have hplain : Transition.Reach Session.step (fun s a => a.isDiscard = false ∧
      a.isHandoff = false ∧ ∀ cookie, a = .poll cookie → s.Pollable cookie) _ _ :=
    hreach.mono fun s a hok => by
      cases a with
      | send | flush | handle | emit | read => exact ⟨rfl, rfl, nofun⟩
      | _ => cases hok
  have hstored : s.serveWord.Uncollected :=
    hreach.invariant (fun _ _ _ h hok hstep => uncollected_step h hok hstep) ⟨rfl, nofun, nofun⟩
  refine ⟨s.serveWord, hplain, hs.length.trans_lt (by norm_num), fun hdelivers => ?_⟩
  have hread := hs.requestRead
  have hcompleted := requestCompleted_serveWord s
  rw [hread] at hcompleted
  have hpollable : s.serveWord.Pollable (2 ^ 63 + 65538) := by
    refine ⟨?_, ?_, fun b hb => ?_⟩
    · rw [hread]
      norm_num
    · rw [hread]
      norm_num
    · rw [hstored.stored] at hb
      cases hb
  have hcomparable : s.serveWord.Comparable (2 ^ 63 + 65538) := by
    rw [Comparable, hread]
    decide
  have hnone : (s.serveWord.conn.inp.pollForReply (BitVec.ofNat 32 (2 ^ 63 + 65538))).1 = none := by
    have hzero : BitVec.ofNat 32 (2 ^ 63 + 65538) ≠ 0 := by decide
    have hcompare : sequenceCompare32 (BitVec.ofNat 32 (2 ^ 63 + 65538))
        (low32 (BitVec.ofNat 64 (2 ^ 63 + 2))) = 65536 := by decide
    rw [XcbIn.pollForReply, if_neg hzero, hread, hcompare, if_neg (by norm_num),
      if_neg (by norm_num), hcompleted, hcompare, if_neg (by norm_num)]
  have herror : s.serveWord.errorRead (2 ^ 63 + 65538) = true := by
    refine errorRead_iff.mpr ⟨s.handle.wordError, ?_, rfl, ?_⟩
    · rw [serveWord, reads_read]
      exact List.mem_append_right _ (List.mem_singleton.mpr rfl)
    · change s.server.handled + 1 = _
      rw [hhandled]
  rw [(hdelivers.pending hpollable hcomparable hnone).2.1] at herror
  cases herror

end Session

end Xcb
