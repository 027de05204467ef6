import Xcb.In
import Xcb.ReaderList

/-!
# When the answer to a request is known

`poll_for_reply` returns `1` when it has a reply, or knows that there will be none. A packet can
make that so for many requests at once: for all that it overtakes, which will have no further
packets, and for its own when it is stored or is an error. `read_packet` signals one reader at most,
the first one that waits for exactly the request of a packet that it stores.

## Main definitions

* `XcbIn.Decided` — `poll_for_reply` would return `1`
* `XcbIn.Overtakes` — the packet is about a later request
* `XcbIn.Keeps` — the packet is a reply or a checked error that nobody has discarded

## Main results

* `XcbIn.decided_readPacket` — which requests a packet decides
* `signalReader_eq_find` — which reader it signals
-/

namespace Xcb

variable {τ β : Type}

/-! ### Completed requests -/

/-- `poll_for_reply` would return `1`. -/
def XcbIn.Decided (c : XcbIn τ β) (request : BitVec 32) : Prop :=
  (c.pollForReply request).1.isSome = true

instance (c : XcbIn τ β) (request : BitVec 32) : Decidable (c.Decided request) :=
  inferInstanceAs (Decidable (_ = true))

theorem XcbIn.decided_iff (c : XcbIn τ β) (request : BitVec 32) :
    c.Decided request ↔ request = 0 ∨ sequenceCompare32 request (low32 c.requestRead) < 0 ∨
      (sequenceCompare32 request (low32 c.requestRead) = 0 ∧ c.currentReply ≠ []) ∨
      sequenceCompare32 request (low32 c.requestCompleted) = 0 := by
  rw [XcbIn.Decided, XcbIn.pollForReply]
  split
  · next hzero => simp [hzero]
  · next hzero =>
    split
    · next hlt => split <;> simp [hlt]
    · next hlt =>
      split
      · next hcurrent =>
        obtain ⟨head, tail, hcons⟩ := List.exists_cons_of_ne_nil hcurrent.2
        simp [hcurrent]
      · next hcurrent =>
        split
        · next hcompleted => simp [hcompleted]
        · next hcompleted => exact iff_of_false Bool.false_ne_true (by tauto)

/-! ### What a packet decides -/

/-- The pending entry for request `n`, when the packets of `n` begin to arrive: entries that are
only about completed requests are passed over. -/
def XcbIn.entryFor (c : XcbIn τ β) (n : BitVec 64) : Option PendingReply :=
  (c.pendingReplies.dropWhile (·.retired
    (if n = c.requestRead then c.requestCompleted else n - 1))).head?.filter (·.covers n)

/-- The packet is a reply or a checked error, and nobody has discarded the replies to its request.
-/
def XcbIn.Keeps (c : XcbIn τ β) (p : Packet β) : Prop :=
  let pend := c.entryFor (widenSequence c.requestRead p.sequence)
  pend.any (fun pend => hasFlag pend.flags requestDiscardReply) = false ∧
    (p.isReply = true ∨
      p.isError = true ∧ pend.any (fun pend => hasFlag pend.flags requestChecked) = true)

section advance

variable {c : XcbIn τ β} {p : Packet β}

theorem not_isError_of_keymapNotify (h : p.isKeymapNotify = true) : p.isError = false := by
  rw [Packet.isKeymapNotify, beq_iff_eq] at h
  refine beq_false_of_ne fun herror => ?_
  rw [herror] at h
  exact absurd h (by decide)

theorem not_isReply_of_keymapNotify (h : p.isKeymapNotify = true) : p.isReply = false := by
  rw [Packet.isKeymapNotify, beq_iff_eq] at h
  refine beq_false_of_ne fun hreply => ?_
  rw [hreply] at h
  exact absurd h (by decide)

/-- **The packets that are stored.** -/
theorem XcbIn.keeps_iff (hkeymap : p.isKeymapNotify = false) :
    c.Keeps p ↔ route ((c.advance p).matchPending p) p = .replyStore := by
  set n := widenSequence c.requestRead p.sequence
  have hentry : p.isError = true ∨ p.isReply = true →
      (c.advance p).matchPending p = c.entryFor n := by
    intro hkind
    have hsame : (c.advanceRead n).requestCompleted =
        if n = c.requestRead then c.requestCompleted else n - 1 := by
      by_cases hread : n = c.requestRead <;> simp [XcbIn.advanceRead, hread]
    rw [XcbIn.matchPending, if_pos (by simpa using hkind), c.advance_pendingReplies p hkeymap,
      c.advance_requestRead p hkeymap, hsame]
    rfl
  unfold XcbIn.Keeps route
  cases hreply : p.isReply with
  | true =>
    rw [hentry (.inr hreply)]
    cases hdiscard : (c.entryFor n).any fun pend => hasFlag pend.flags requestDiscardReply <;>
      simp [n, hdiscard]
  | false =>
    cases herror : p.isError with
    | true =>
      rw [hentry (.inl herror)]
      cases hdiscard : (c.entryFor n).any fun pend => hasFlag pend.flags requestDiscardReply <;>
        cases hchecked : (c.entryFor n).any fun pend => hasFlag pend.flags requestChecked <;>
          simp [n, hdiscard, hchecked]
    | false => simp [XcbIn.matchPending, hreply, herror]

/-- The packet is about a later request. The tests of `poll_for_reply` know two such requests: one
that is smaller as an `int`, and the one before the request that begins with this packet. -/
def XcbIn.Overtakes (c : XcbIn τ β) (p : Packet β) (request : BitVec 32) : Prop :=
  sequenceCompare32 request (low32 (widenSequence c.requestRead p.sequence)) < 0 ∨
    request = low32 (widenSequence c.requestRead p.sequence - 1) ∧
      widenSequence c.requestRead p.sequence ≠ c.requestRead ∧ p.isError = false

instance (c : XcbIn τ β) (p : Packet β) (request : BitVec 32) :
    Decidable (c.Overtakes p request) := inferInstanceAs (Decidable (_ ∨ _))

/-- A packet does not overtake its own request. -/
theorem XcbIn.not_overtakes_own :
    ¬ c.Overtakes p (low32 (widenSequence c.requestRead p.sequence)) := by
  rintro (hlt | ⟨hsame, -⟩)
  · exact hlt.ne (sequenceCompare32_self _)
  · unfold low32 at hsame
    bv_omega

/-- The number of a packet decides every request that it overtakes, and an error its own. -/
theorem XcbIn.decided_advance (hkeymap : p.isKeymapNotify = false) {request : BitVec 32}
    (hnot : ¬ c.Decided request) :
    (c.advance p).Decided request ↔ c.Overtakes p request ∨
      request = low32 (widenSequence c.requestRead p.sequence) ∧ p.isError = true := by
  rw [XcbIn.decided_iff] at hnot ⊢
  simp only [sequenceCompare32_eq_zero_iff] at hnot ⊢
  rw [c.advance_of_not_keymapNotify p hkeymap, XcbIn.Overtakes]
  push Not at hnot
  obtain ⟨hzero, -, hread, hcompleted⟩ := hnot
  set n := widenSequence c.requestRead p.sequence
  rw [or_iff_right hzero]
  by_cases hn : n = c.requestRead
  · cases p.isError <;> simp [XcbIn.advanceRead, hn, hcompleted]
    all_goals tauto
  · cases p.isError <;> simp [XcbIn.advanceRead, hn]

/-- **What a packet decides.** -/
theorem XcbIn.decided_readPacket (hkeymap : p.isKeymapNotify = false) {request : BitVec 32}
    (hnot : ¬ c.Decided request) :
    (c.readPacket p).1.Decided request ↔ c.Overtakes p request ∨
      request = low32 (widenSequence c.requestRead p.sequence) ∧
        (p.isError = true ∨ c.Keeps p) := by
  have hadvance := c.decided_advance hkeymap hnot
  rw [XcbIn.decided_iff, c.advance_requestRead p hkeymap] at hadvance
  rw [XcbIn.decided_iff, XcbIn.readPacket_fst, XcbIn.keeps_iff hkeymap]
  dsimp only
  rw [c.advance_requestRead p hkeymap]
  by_cases hroute : route ((c.advance p).matchPending p) p = .replyStore
  · have hzero : request ≠ 0 := fun hzero => hnot ((c.decided_iff request).mpr (.inl hzero))
    rw [if_pos hroute]
    simp only [hroute, or_true, and_true, ne_eq, List.append_eq_nil_iff, List.cons_ne_self,
      and_false, not_false_eq_true]
    rw [sequenceCompare32_eq_zero_iff] at hadvance ⊢
    tauto
  · rw [if_neg hroute, hadvance]
    simp [hroute]

/-- An event without a number decides nothing. -/
theorem XcbIn.decided_keymapNotify (hkeymap : p.isKeymapNotify = true) (request : BitVec 32) :
    (c.readPacket p).1.Decided request ↔ c.Decided request := by
  have hroute : route ((c.advance p).matchPending p) p = .eventQueue := by
    simp [route, XcbIn.matchPending, not_isError_of_keymapNotify hkeymap,
      not_isReply_of_keymapNotify hkeymap]
  rw [XcbIn.decided_iff, XcbIn.decided_iff, XcbIn.readPacket_fst, hroute,
    c.advance_of_keymapNotify p hkeymap]
  rfl

end advance

/-! ### Which reader is signalled -/

/-- In a sorted list the walk finds the first reader of this request, if there is one. -/
theorem signalReader_eq_find {read : BitVec 64} {readers : List (Reader τ)}
    (h : readers.Pairwise Reader.NotLater) :
    signalReader read readers =
      (readers.find? fun reader => reader.request == low32 read).map Reader.data := by
  induction readers with
  | nil => rfl
  | cons r next ih =>
    obtain ⟨hr, hnext⟩ := List.pairwise_cons.mp h
    have hzero := sequenceCompare32_eq_zero_iff r.request (low32 read)
    rw [signalReader, List.find?_cons]
    by_cases hsame : r.request = low32 read
    · have hcompare : sequenceCompare32 r.request (low32 read) = 0 := hzero.mpr hsame
      rw [if_pos hcompare.le, if_pos hcompare, beq_iff_eq.mpr hsame]
      rfl
    · have hcompare : sequenceCompare32 r.request (low32 read) ≠ 0 := fun h => hsame (hzero.mp h)
      rw [beq_false_of_ne hsame, if_neg hcompare]
      split
      · exact ih hnext
      · next hlater =>
        -- what follows is not earlier, so the request is not there
        have hnone : (next.find? fun reader => reader.request == low32 read) = none := by
          refine List.find?_eq_none.mpr fun q hq heq => hlater ?_
          rw [beq_iff_eq] at heq
          exact heq ▸ hr q hq
        rw [hnone]
        rfl

/-- **Which reader is signalled**: the first one that waits for the request of a packet that is
stored. -/
theorem XcbIn.readPacket_snd {c : XcbIn τ β} {p : Packet β} (h : c.readers.Pairwise Reader.NotLater)
    (hkeymap : p.isKeymapNotify = false) (v : τ) :
    (c.readPacket p).2 = some (.reader v) ↔ c.Keeps p ∧
      (c.readers.find? fun reader => reader.request ==
        low32 (widenSequence c.requestRead p.sequence)).map Reader.data = some v := by
  rw [XcbIn.keeps_iff hkeymap, ← signalReader_eq_find h, ← c.advance_requestRead p hkeymap,
    XcbIn.readPacket]
  cases route ((c.advance p).matchPending p) p <;> simp

end Xcb
