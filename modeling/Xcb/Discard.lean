import Xcb.Parallel

/-!
# Discarding a request

`xcb_discard_reply` forgets what is stored for a request and sees to it that what comes later is
dropped when it is read. Here a run in which a request is discarded is laid beside the same run in
which it is not. The two stay together in everything but the answers to that request: one entry of
`pending_replies` differs, one node of the map of replies, `current_reply` while the request is
being read, and the errors of the request in the event queue.

## Main definitions

* `Session.Kept` — the invariant of one run
* `Session.Beside` — the two runs, between two steps
* `Session.Discards` — what `xcb_discard_reply` promises

## Main results

* `beside_step` — the runs stay together
* `discards_of_reach` — a discarded request is silent, and nothing else changes
-/

namespace Xcb

open Ranges (Range)

variable {τ α : Type}

namespace Session

variable {s t u : Session} {n m : ℕ} {rs rs' : List (Range Handling)} {p : Packet Stamp}
  {wire : List (Packet Stamp)}

/-! ### One run -/

/-- Without handoff, with fewer than `2 ^ 63 - 1` requests in flight at each packet, and with
discardable cookies in the calls of `xcb_discard_reply`. -/
structure Orderly (s : Session) (a : Action) : Prop where
  handoff : a.isHandoff = false
  close : a = .read → s.Close
  cookie : ∀ request, a = .discard request → request ≠ 0 →
    ∃ n, request = BitVec.ofNat 32 n ∧ s.Discardable n

/-- Between two steps of such a run. -/
structure Kept (s : Session) (rs : List (Range Handling)) : Prop where
  entered : s.Entered rs
  synchronous : ∃ expected, s.Synchronous expected
  filed : s.conn.inp.Filed s.lastRead

theorem kept_init (size : ℕ) (maximum : BitVec 16) : (Session.init size maximum).Kept [] := by
  refine ⟨⟨stamped_init size maximum, rfl, ?_, .nil, ?_, ?_, ?_⟩,
    ⟨0, synchronous_init size maximum⟩, ?_, .nil, ?_⟩
  iterate 5
    intro r hr
    cases hr
  intro b hb
  cases hb

theorem Orderly.inFlight {a : Action} (h : Orderly s a) : InFlight s a := by
  refine ⟨h.handoff, fun hread => ?_⟩
  have := h.close hread
  unfold Close at this
  omega

theorem Kept.number_lt (h : s.Kept rs) (hwire : s.wire = p :: wire) :
    p.body.number < s.lastRead + 2 ^ 16 := by
  obtain ⟨expected, hsync⟩ := h.synchronous
  exact hsync.number_lt hwire

theorem Kept.quiet (h : s.Kept rs) {a : Action} {new : List Request} (hpar : s.Parallel a u new)
    (hu : ∃ expected, u.Synchronous expected) :
    u.Kept (rs ++ entriesOf (s.requests.length + 1) new) := by
  obtain ⟨expected, hinp⟩ := hpar.inp
  have hreads : u.reads = s.reads := by rw [reads, hpar.log, reads]
  refine ⟨h.entered.append hu.choose_spec.toStamped hpar.requests hpar.owned hreads
    (by rw [hinp]), hu, ?_⟩
  rw [lastRead_of_reads hreads, hinp]
  exact ⟨h.filed.node, h.filed.distinct, h.filed.current⟩

theorem Kept.poll (h : s.Kept rs) (cookie : ℕ)
    (hu : ∃ expected, (s.poll cookie).Synchronous expected) : (s.poll cookie).Kept rs := by
  have hlast := lastRead_of_reads (reads_poll s cookie)
  obtain ⟨currentReply, replies, heq⟩ := s.conn.inp.pollForReply_snd (BitVec.ofNat 32 cookie)
  refine ⟨h.entered.of_same hu.choose_spec.toStamped ?_ rfl hlast, hu, ?_⟩
  · show (s.conn.inp.pollForReply (BitVec.ofNat 32 cookie)).2.pendingReplies = _
    rw [heq]
  · rw [hlast]
    exact (h.filed.pollForReply h.entered.requestRead _).1

theorem Kept.getEvent (h : s.Kept rs) (hu : ∃ expected, s.getEvent.Synchronous expected) :
    s.getEvent.Kept rs := by
  have hlast := lastRead_of_reads (reads_getEvent s)
  have hinp : s.getEvent.conn.inp = { s.conn.inp with events := s.conn.inp.events.tail } :=
    s.conn.inp.getEvent_snd
  refine ⟨h.entered.of_same hu.choose_spec.toStamped (by rw [hinp]) rfl hlast, hu, ?_⟩
  rw [hlast, hinp]
  exact ⟨h.filed.node, h.filed.distinct, h.filed.current⟩

theorem Kept.discard (h : s.Kept rs) (hn : s.Discardable n) (hzero : BitVec.ofNat 32 n ≠ 0)
    (hu : ∃ expected, (s.discard (BitVec.ofNat 32 n)).Synchronous expected) :
    (s.discard (BitVec.ofNat 32 n)).Kept (s.discardRanges n rs) := by
  refine ⟨h.entered.discard hn hzero hu.choose_spec.toStamped, hu, ?_⟩
  show (if BitVec.ofNat 32 n = 0 then s.conn.inp else _ : XcbIn Empty Stamp).Filed s.lastRead
  rw [if_neg hzero, h.entered.discardReply hn]
  split
  · rcases s.conn.inp.replies.remove_cases (BitVec.ofNat 32 n) with
      ⟨data, before, after, hnodes, hremove⟩ | ⟨-, hremove⟩
    · have hsub : (before ++ after).Sublist s.conn.inp.replies.nodes := by
        rw [hnodes]
        exact (List.sublist_cons_self _ after).append_left before
      rw [hremove]
      exact ⟨fun node hnode => h.filed.node node (hsub.subset hnode), h.filed.distinct.sublist hsub,
        h.filed.current⟩
    · rw [hremove]
      exact ⟨h.filed.node, h.filed.distinct, h.filed.current⟩
  · refine ⟨h.filed.node, h.filed.distinct, fun b hb => ?_⟩
    split at hb
    · cases hb
    · exact h.filed.current b hb

theorem Kept.read (h : s.Kept rs) (hwire : s.wire = p :: wire) (hclose : s.Close)
    (hu : ∃ expected, (s.read p wire).Synchronous expected) :
    (s.read p wire).Kept (s.readRanges p rs) := by
  have hp : p ∈ s.wire := by
    rw [hwire]
    exact List.mem_cons_self
  have hnear := h.number_lt hwire
  refine ⟨h.entered.read hwire hnear hclose hu.choose_spec.toStamped, hu, ?_⟩
  rw [lastRead_read]
  exact h.filed.readPacket h.entered.requestRead (h.entered.served.lastRead_le hp) fun hkey =>
    ⟨hnear, h.entered.widen hp hkey hnear⟩

theorem discard_zero (s : Session) : s.discard 0 = s := by simp [Session.discard]

/-- **One step** of an orderly run. -/
theorem kept_step {a : Action} (h : ∃ rs, s.Kept rs) (hok : Orderly s a)
    (hstep : s.step a = some u) : ∃ rs, u.Kept rs := by
  obtain ⟨rs, h⟩ := h
  have hu := synchronous_step h.synchronous hok.inFlight hstep
  by_cases hquiet : a.isQuiet = true
  · obtain ⟨new, hpar⟩ := quiet_step h.entered.request hquiet hstep
    exact ⟨_, h.quiet hpar hu⟩
  · cases step_cases hstep with
    | takeSocket => cases hok.handoff
    | writev => cases hok.handoff
    | getSocketBack => cases hok.handoff
    | @poll cookie => exact ⟨_, h.poll cookie hu⟩
    | getEvent => exact ⟨_, h.getEvent hu⟩
    | @discard request =>
      by_cases hzero : request = 0
      · rw [hzero, discard_zero]
        exact ⟨rs, h⟩
      · obtain ⟨n, rfl, hn⟩ := hok.cookie request rfl hzero
        exact ⟨_, h.discard hn hzero hu⟩
    | read hwire => exact ⟨_, h.read hwire (hok.close rfl) hu⟩
    | _ => exact absurd rfl hquiet

/-! ### Both runs -/

/-- The results of all polls for request `n`. -/
def polls (s : Session) (n : ℕ) : List (Option (Option (Buffer Stamp))) :=
  s.log.filterMap fun
    | .poll cookie result => if cookie = n then some result else none
    | _ => none

/-- Is this a reply or an error to request `n`? -/
def answers (n : ℕ) (p : Packet Stamp) : Bool := p.isAnswer && p.body.number == n

/-- `t` is where the run is that discarded request `n` in `s₀`, and `s` where it would be if it had
not. -/
structure Beside (s₀ : Session) (n : ℕ) (s t : Session) (rs rs' : List (Range Handling)) :
    Prop where
  same : ∃ currentReply replies events pending log,
    t = s.withInput currentReply replies events pending log
  entered : t.Entered rs'
  reads : t.reads = s.reads
  without : s.conn.inp.Without n s.lastRead t.conn.inp
  others : (rs'.filter fun r => r.first ≠ n) = rs.filter fun r => r.first ≠ n
  marked : s.lastCompleted < n →
    ∃ r ∈ rs', r.first = n ∧ hasFlag r.value.flags requestDiscardReply = true
  events : (t.eventsOf.filter fun p => !answers n p) = s.eventsOf.filter fun p => !answers n p
  silent : t.eventsOf.filter (answers n) = s₀.eventsOf.filter (answers n)
  polls : ∀ m, m ≠ n → t.polls m = s.polls m
  collected : t.delivered n = s₀.delivered n

theorem Stamped.withInput (h : s.Stamped) {currentReply : List (Buffer Stamp)}
    {replies : XcbMap (List (Buffer Stamp))} {events : List (Buffer Stamp)}
    {pending : List PendingReply} {log : List Observation}
    (hreads : (s.withInput currentReply replies events pending log).reads = s.reads) :
    (s.withInput currentReply replies events pending log).Stamped := by
  refine h.of_reads (h.served.of_client (List.append_nil _).symm rfl ?_) h.request rfl rfl hreads
  rw [packets, hreads]
  rfl

/-- Nodes with the low bits of a current cookie are its own. -/
theorem Current.nodeOf (hm : s.Current m) (hfiled : s.conn.inp.Filed s.lastRead)
    {node : BitVec 32 × List (Buffer Stamp)} (hnode : node ∈ s.conn.inp.replies.nodes)
    (hkey : node.1 = BitVec.ofNat 32 m) : NodeOf m node := by
  obtain ⟨k, -, hof⟩ := hfiled.node node hnode
  obtain ⟨head, next, hcons⟩ := List.exists_cons_of_ne_nil hof.ne_nil
  have hhead : head ∈ node.2 := by rw [hcons]; exact List.mem_cons_self
  have hstored : head ∈ s.conn.inp.stored :=
    List.mem_append_left _ (List.mem_flatMap.mpr ⟨node, hnode, hhead⟩)
  obtain ⟨hlo, hhi⟩ := hm.near k (.inr ⟨head, hstored, hof.number head hhead⟩)
  rw [hof.key, Serial.ofNat_inj (by omega) (by omega)] at hkey
  rwa [← hkey]

/-- What `discard_reply` takes out of the map is the node of the request. -/
theorem Kept.remove_eq (h : s.Kept rs) (hn : s.Current n) :
    (s.conn.inp.replies.remove (BitVec.ofNat 32 n)).2 =
      ⟨s.conn.inp.replies.nodes.filter (nodeOfOther n)⟩ := by
  have hother : ∀ node ∈ s.conn.inp.replies.nodes, (∃ b ∈ node.2, b.packet.body.number ≠ n) →
      nodeOfOther n node = true := by
    rintro node hnode ⟨b, hb, hne⟩
    obtain ⟨k, -, hof⟩ := h.filed.node node hnode
    rw [nodeOfOther_eq hof, decide_eq_true_eq, ← hof.number b hb]
    exact hne
  rcases s.conn.inp.replies.remove_cases (BitVec.ofNat 32 n) with
    ⟨data, before, after, hnodes, hremove⟩ | ⟨hnone, hremove⟩
  · have hmem : (BitVec.ofNat 32 n, data) ∈ s.conn.inp.replies.nodes := by rw [hnodes]; simp
    have hof := hn.nodeOf h.filed hmem rfl
    obtain ⟨head, next, rfl⟩ := List.exists_cons_of_ne_nil hof.ne_nil
    have hhead : head.packet.body.number = n := hof.number head List.mem_cons_self
    have hdistinct := h.filed.distinct
    rw [hnodes] at hdistinct
    obtain ⟨-, hbehind, hacross⟩ := List.pairwise_append.mp hdistinct
    have hleft : ∀ node ∈ before ++ after, nodeOfOther n node = true := by
      intro node hnode
      have hold : node ∈ s.conn.inp.replies.nodes := by
        rw [hnodes]
        rcases List.mem_append.mp hnode with hnode | hnode
        · exact List.mem_append_left _ hnode
        · exact List.mem_append_right _ (List.mem_cons_of_mem _ hnode)
      obtain ⟨k, -, hofk⟩ := h.filed.node node hold
      obtain ⟨b, rest, hcons⟩ := List.exists_cons_of_ne_nil hofk.ne_nil
      have hb : b ∈ node.2 := by rw [hcons]; exact List.mem_cons_self
      refine hother node hold ⟨b, hb, ?_⟩
      rw [← hhead]
      rcases List.mem_append.mp hnode with hnode | hnode
      · exact hacross node hnode _ List.mem_cons_self b hb head List.mem_cons_self
      · exact ((List.pairwise_cons.mp hbehind).1 node hnode head List.mem_cons_self b hb).symm
    rw [hremove, hnodes, List.filter_append,
      List.filter_cons_of_neg (by rw [nodeOfOther_eq hof]; simp),
      ← List.filter_append, List.filter_eq_self.mpr hleft]
  · rw [hremove, List.filter_eq_self.mpr fun node hnode => ?_]
    obtain ⟨k, -, hof⟩ := h.filed.node node hnode
    rw [nodeOfOther_eq hof, decide_eq_true_eq]
    rintro rfl
    exact hnone node hnode hof.key

/-- Another cookie, unless its low bits are the same and it is not current, is not mixed up with
the discarded one. -/
theorem Kept.other (h : s.Kept rs) (hm : m ≠ n)
    (hcurrent : BitVec.ofNat 32 m = BitVec.ofNat 32 n → s.Current m) :
    (∀ node ∈ s.conn.inp.replies.nodes, node.1 = BitVec.ofNat 32 m →
        nodeOfOther n node = true) ∧
      (BitVec.ofNat 32 m = low32 s.conn.inp.requestRead → s.lastRead ≠ n) := by
  have hread : low32 s.conn.inp.requestRead = BitVec.ofNat 32 s.lastRead := by
    rw [h.entered.requestRead, low32_ofNat]
  by_cases hlow : BitVec.ofNat 32 m = BitVec.ofNat 32 n
  · have hcur := hcurrent hlow
    constructor
    · intro node hnode hkey
      rw [nodeOfOther_eq (hcur.nodeOf h.filed hnode hkey)]
      simpa using hm
    · intro heq
      obtain ⟨hlo, hhi⟩ := hcur.near_lastRead h.entered.toStamped
      rw [hread, Serial.ofNat_inj (by omega) (by omega)] at heq
      rwa [← heq]
  · constructor
    · intro node hnode hkey
      obtain ⟨k, -, hof⟩ := h.filed.node node hnode
      rw [nodeOfOther_eq hof, decide_eq_true_eq]
      rintro rfl
      exact hlow (hkey.symm.trans hof.key)
    · rintro heq rfl
      exact hlow (heq.trans hread)

/-- The discarded cookie itself. -/
theorem Kept.own (h : s.Kept rs) (hn : s.Current n) :
    (∀ node ∈ s.conn.inp.replies.nodes, node.1 = BitVec.ofNat 32 n → NodeOf n node) ∧
      (BitVec.ofNat 32 n = low32 s.conn.inp.requestRead → s.lastRead = n) := by
  constructor
  · intro node hnode hkey
    exact hn.nodeOf h.filed hnode hkey
  · intro heq
    obtain ⟨hlo, hhi⟩ := hn.near_lastRead h.entered.toStamped
    rw [h.entered.requestRead, low32_ofNat, Serial.ofNat_inj (by omega) (by omega)] at heq
    exact heq.symm

/-- The input half after `xcb_discard_reply`. -/
theorem Entered.discard_inp (h : s.Entered rs) (hn : s.Discardable n)
    (hzero : BitVec.ofNat 32 n ≠ 0) :
    (s.discard (BitVec.ofNat 32 n)).conn.inp =
      { s.conn.inp with
        replies := if n < s.lastRead then (s.conn.inp.replies.remove (BitVec.ofNat 32 n)).2
          else s.conn.inp.replies
        currentReply := if n = s.lastRead then [] else s.conn.inp.currentReply
        pendingReplies := (s.discardRanges n rs).map pendingOf } := by
  show (if BitVec.ofNat 32 n = 0 then s.conn.inp else _ : XcbIn Empty Stamp) = _
  rw [if_neg hzero, h.discardReply hn, discardRanges]
  by_cases hlt : n < s.lastRead
  · rw [if_pos hlt, if_pos hlt, if_pos hlt, if_neg (by omega), ← h.pending]
  · rw [if_neg hlt, if_neg hlt, if_neg hlt]

theorem eventsOf_discard (h : s.Entered rs) (hn : s.Discardable n) (hzero : BitVec.ofNat 32 n ≠ 0) :
    (s.discard (BitVec.ofNat 32 n)).eventsOf = s.eventsOf := by
  rw [eventsOf, h.discard_inp hn hzero]
  rfl

/-- **The request is discarded.** -/
theorem Kept.beside (h : s.Kept rs) (hn : s.Discardable n) (hzero : BitVec.ofNat 32 n ≠ 0)
    (hu : (s.discard (BitVec.ofNat 32 n)).Stamped) :
    Beside s n s (s.discard (BitVec.ofNat 32 n)) rs (s.discardRanges n rs) := by
  have hinp := h.entered.discard_inp hn hzero
  have hevents := eventsOf_discard h.entered hn hzero
  have hsame : s.discard (BitVec.ofNat 32 n) = s.withInput
      (s.discard (BitVec.ofNat 32 n)).conn.inp.currentReply
      (s.discard (BitVec.ofNat 32 n)).conn.inp.replies s.conn.inp.events
      (s.discard (BitVec.ofNat 32 n)).conn.inp.pendingReplies s.log := by
    show ({ s with conn := { s.conn with inp := (s.discard (BitVec.ofNat 32 n)).conn.inp } } :
      Session) = _
    rw [hinp]
    rfl
  refine ⟨⟨_, _, _, _, _, hsame⟩, h.entered.discard hn hzero hu, rfl, ⟨?_, ?_⟩, ?_,
    s.exists_discardRanges rs, by rw [hevents], by rw [hevents], fun m _ => rfl, rfl⟩
  · rw [hinp]
    by_cases heq : n = s.lastRead
    · rw [if_pos heq.symm]
      exact if_pos heq
    · rw [if_neg (Ne.symm heq)]
      exact if_neg heq
  · rw [hinp]
    by_cases hlt : n < s.lastRead
    · exact (if_pos hlt).trans (h.remove_eq hn.toCurrent)
    · refine (if_neg hlt).trans ?_
      rw [List.filter_eq_self.mpr fun node hnode => ?_]
      obtain ⟨k, hk, hof⟩ := h.filed.node node hnode
      rw [nodeOfOther_eq hof, decide_eq_true_eq]
      omega
  · unfold discardRanges
    split
    · rfl
    · exact Keyed.filter_upsert_self (first_discardRange n) first_discardMark rs

section Beside

variable {s₀ : Session} (hb : Beside s₀ n s t rs rs')

include hb

/-- A step that does not look at what has been read. -/
theorem Beside.quiet {a : Action} {new : List Request} (hpar : s.Parallel a u new)
    (hu : u.Stamped) :
    ∃ t', t.step a = some t' ∧
      Beside s₀ n u t' (rs ++ entriesOf (s.requests.length + 1) new)
        (rs' ++ entriesOf (s.requests.length + 1) new) := by
  obtain ⟨currentReply, replies, events, pending, log, rfl⟩ := hb.same
  obtain ⟨expected, hinp⟩ := hpar.inp
  have hreads : u.reads = s.reads := by rw [Session.reads, hpar.log, Session.reads]
  have hlast := lastRead_of_reads hreads
  have hcompleted := lastCompleted_of_reads hreads
  have hevents : u.eventsOf = s.eventsOf := by rw [eventsOf, hpar.log, hinp, eventsOf]
  have ht : (u.withInput currentReply replies events
      (pending ++ (entriesOf (s.requests.length + 1) new).map pendingOf) log).reads = u.reads :=
    hb.reads.trans hreads.symm
  refine ⟨_, hpar.other currentReply replies events pending log, ⟨_, _, _, _, _, rfl⟩,
    hb.entered.append (hu.withInput ht) hpar.requests hpar.owned (ht.trans (hreads.trans
      hb.reads.symm)) rfl, ht, ?_, ?_, ?_, ?_, hb.silent, ?_, hb.collected⟩
  · rw [hlast, hinp]
    exact ⟨hb.without.current, hb.without.replies⟩
  · rw [List.filter_append, List.filter_append, hb.others]
  · intro hlt
    rw [hcompleted] at hlt
    obtain ⟨r, hr, hmark⟩ := hb.marked hlt
    exact ⟨r, List.mem_append_left _ hr, hmark⟩
  · rw [hevents]
    exact hb.events
  · intro m hm
    rw [Session.polls, Session.polls, hpar.log]
    exact hb.polls m hm

/-- An event is handed out, though not always the same one. -/
theorem Beside.getEvent (hu : s.getEvent.Stamped) :
    Beside s₀ n s.getEvent t.getEvent rs rs' := by
  obtain ⟨currentReply, replies, events, pending, log, rfl⟩ := hb.same
  set t := s.withInput currentReply replies events pending log with ht
  have hsinp : s.getEvent.conn.inp = { s.conn.inp with events := s.conn.inp.events.tail } :=
    s.conn.inp.getEvent_snd
  have htinp : t.getEvent.conn.inp = { t.conn.inp with events := t.conn.inp.events.tail } :=
    t.conn.inp.getEvent_snd
  have hlast := lastRead_of_reads (reads_getEvent s)
  have hcompleted := lastCompleted_of_reads (reads_getEvent s)
  have hreads : t.getEvent.reads = s.getEvent.reads := by
    rw [reads_getEvent, reads_getEvent, hb.reads]
  have hpolls : ∀ (v : Session) (m : ℕ), v.getEvent.polls m = v.polls m := by
    intro v m
    simp [Session.polls, Session.getEvent]
  have hsame : t.getEvent = s.getEvent.withInput currentReply replies events.tail pending
      t.getEvent.log := by
    rw [Session.withInput, hsinp]
    show ({ t.getEvent with conn := { t.conn with inp := t.getEvent.conn.inp } } : Session) = _
    rw [htinp]
    rfl
  refine ⟨⟨_, _, _, _, _, hsame⟩, ?_, hreads, ?_, hb.others, ?_, ?_, ?_, ?_, ?_⟩
  · refine hb.entered.of_same ?_ (by rw [htinp]) rfl (lastRead_of_reads (reads_getEvent t))
    rw [hsame] at hreads ⊢
    exact hu.withInput hreads
  · rw [hlast, hsinp, htinp]
    exact ⟨hb.without.current, hb.without.replies⟩
  · rw [hcompleted]
    exact hb.marked
  · rw [eventsOf_getEvent, eventsOf_getEvent]
    exact hb.events
  · rw [eventsOf_getEvent]
    exact hb.silent
  · intro m hm
    rw [hpolls, hpolls]
    exact hb.polls m hm
  · rw [← hb.collected]
    simp [delivered, Session.getEvent]

/-- A poll, for another request or for the discarded one. -/
theorem Beside.poll (h : s.Kept rs) {cookie : ℕ}
    (hcurrent : BitVec.ofNat 32 cookie = BitVec.ofNat 32 n → s.Current cookie)
    (hu : (s.poll cookie).Stamped) : Beside s₀ n (s.poll cookie) (t.poll cookie) rs rs' := by
  obtain ⟨currentReply, replies, events, pending, log, rfl⟩ := hb.same
  set t := s.withInput currentReply replies events pending log with ht
  have hresult : (cookie ≠ n → (t.conn.inp.pollForReply (BitVec.ofNat 32 cookie)).1 =
        (s.conn.inp.pollForReply (BitVec.ofNat 32 cookie)).1) ∧
      (cookie = n → (t.conn.inp.pollForReply (BitVec.ofNat 32 cookie)).1.join = none) ∧
      (s.conn.inp.pollForReply (BitVec.ofNat 32 cookie)).2.Without n s.lastRead
        (t.conn.inp.pollForReply (BitVec.ofNat 32 cookie)).2 := by
    by_cases hcookie : cookie = n
    · subst hcookie
      obtain ⟨hkeys, hlast⟩ := h.own (hcurrent rfl)
      obtain ⟨hnone, hwithout⟩ := hb.without.poll_own rfl rfl hkeys hlast
      exact ⟨fun hne => absurd rfl hne, fun _ => hnone, hwithout⟩
    · obtain ⟨hkeys, hlast⟩ := h.other hcookie hcurrent
      obtain ⟨heq, hwithout⟩ := hb.without.poll_other h.filed rfl rfl hkeys hlast
      exact ⟨fun _ => heq, fun heq => absurd heq hcookie, hwithout⟩
  obtain ⟨hother, hown, hwithout⟩ := hresult
  obtain ⟨_, _, hs⟩ := s.conn.inp.pollForReply_snd (BitVec.ofNat 32 cookie)
  obtain ⟨currentReply', replies', hq⟩ := t.conn.inp.pollForReply_snd (BitVec.ofNat 32 cookie)
  have hlast := lastRead_of_reads (reads_poll s cookie)
  have hreads : (t.poll cookie).reads = (s.poll cookie).reads := by
    rw [reads_poll, reads_poll, hb.reads]
  have hsame : t.poll cookie = (s.poll cookie).withInput currentReply' replies' events pending
      (t.poll cookie).log := by
    simp only [Session.poll, Session.withInput, hs, hq]
    rfl
  refine ⟨⟨_, _, _, _, _, hsame⟩, ?_, hreads, ?_, hb.others, ?_, ?_, ?_, ?_, ?_⟩
  · refine hb.entered.of_same ?_ ?_ rfl (lastRead_of_reads (reads_poll t cookie))
    · rw [hsame] at hreads ⊢
      exact hu.withInput hreads
    · show (t.conn.inp.pollForReply (BitVec.ofNat 32 cookie)).2.pendingReplies = _
      rw [hq]
  · rw [hlast]
    exact hwithout
  · rw [lastCompleted_of_reads (reads_poll s cookie)]
    exact hb.marked
  · rw [eventsOf_poll, eventsOf_poll]
    exact hb.events
  · rw [eventsOf_poll]
    exact hb.silent
  · intro m hm
    have hpolls : ∀ v : Session, (v.poll cookie).polls m = v.polls m ++
        if cookie = m then [(v.conn.inp.pollForReply (BitVec.ofNat 32 cookie)).1] else [] := by
      intro v
      by_cases hcookie : cookie = m <;> simp [Session.polls, Session.poll, hcookie]
    rw [hpolls, hpolls, hb.polls m hm]
    split
    · next hcookie =>
      rw [hother (by rw [hcookie]; exact hm)]
    · rfl
  · rw [← hb.collected]
    by_cases hcookie : cookie = n
    · simp [delivered, Session.poll, hown hcookie]
    · simp [delivered, Session.poll, hcookie]

theorem Beside.lastRead_eq : t.lastRead = s.lastRead := lastRead_of_reads hb.reads

theorem Beside.requests_eq : t.requests = s.requests := by
  obtain ⟨currentReply, replies, events, pending, log, ht⟩ := hb.same
  rw [ht]
  rfl

theorem Beside.live_of_live (hm : t.Live m) : s.Live m := by
  rcases hm with ⟨hlo, hhi⟩ | ⟨b, hmem, hm⟩
  · rw [hb.lastRead_eq] at hlo
    rw [hb.requests_eq] at hhi
    exact .inl ⟨hlo, hhi⟩
  · refine .inr ⟨b, ?_, hm⟩
    rcases List.mem_append.mp hmem with hmem | hmem
    · obtain ⟨node, hnode, hmem⟩ := List.mem_flatMap.mp hmem
      rw [hb.without.replies] at hnode
      exact List.mem_append_left _ (List.mem_flatMap.mpr ⟨node, (List.mem_filter.mp hnode).1, hmem⟩)
    · rw [hb.without.current] at hmem
      split at hmem
      · cases hmem
      · exact List.mem_append_right _ hmem

theorem Beside.discardable (hm : s.Discardable m) : t.Discardable m := by
  refine ⟨⟨hm.pos, ?_, fun k hk => hm.near k (hb.live_of_live hk)⟩,
    fun k hk => hm.fits k (hb.live_of_live hk)⟩
  rw [hb.requests_eq]
  exact hm.le

/-- Another request is discarded, or the same one again. -/
theorem Beside.discard (h : s.Kept rs) (hm : s.Discardable m) (hzero : BitVec.ofNat 32 m ≠ 0)
    (hu : (s.discard (BitVec.ofNat 32 m)).Stamped) :
    Beside s₀ n (s.discard (BitVec.ofNat 32 m)) (t.discard (BitVec.ofNat 32 m))
      (s.discardRanges m rs) (s.discardRanges m rs') := by
  have htm := hb.discardable hm
  have hlast := hb.lastRead_eq
  have hsinp := h.entered.discard_inp hm hzero
  have htinp := hb.entered.discard_inp htm hzero
  have hranges : t.discardRanges m rs' = s.discardRanges m rs' := by
    rw [discardRanges, hlast, discardRanges]
  have hsevents := eventsOf_discard h.entered hm hzero
  have htevents := eventsOf_discard hb.entered htm hzero
  rw [hlast, hranges] at htinp
  have hsame : t.discard (BitVec.ofNat 32 m) = (s.discard (BitVec.ofNat 32 m)).withInput
      (t.discard (BitVec.ofNat 32 m)).conn.inp.currentReply
      (t.discard (BitVec.ofNat 32 m)).conn.inp.replies t.conn.inp.events
      (t.discard (BitVec.ofNat 32 m)).conn.inp.pendingReplies t.log := by
    obtain ⟨currentReply, replies, events, pending, log, rfl⟩ := hb.same
    set t := s.withInput currentReply replies events pending log with ht
    show ({ t with conn := { t.conn with inp := (t.discard (BitVec.ofNat 32 m)).conn.inp } } :
        Session) =
      { s with
        conn := { s.conn with
          inp := { (s.discard (BitVec.ofNat 32 m)).conn.inp with
            currentReply := (t.discard (BitVec.ofNat 32 m)).conn.inp.currentReply
            replies := (t.discard (BitVec.ofNat 32 m)).conn.inp.replies
            events := t.conn.inp.events
            pendingReplies := (t.discard (BitVec.ofNat 32 m)).conn.inp.pendingReplies } }
        log := t.log }
    rw [hsinp, htinp]
    rfl
  refine ⟨⟨_, _, _, _, _, hsame⟩, ?_, hb.reads, ⟨?_, ?_⟩, ?_, ?_, ?_, ?_, hb.polls, hb.collected⟩
  · rw [← hranges]
    refine hb.entered.discard htm hzero ?_
    rw [hsame]
    exact hu.withInput hb.reads
  · rw [hsinp, htinp]
    show (if m = s.lastRead then [] else t.conn.inp.currentReply) =
      if s.lastRead = n then [] else if m = s.lastRead then [] else s.conn.inp.currentReply
    rw [hb.without.current]
    by_cases heq : m = s.lastRead
    · rw [if_pos heq, if_pos heq, ite_self]
    · rw [if_neg heq, if_neg heq]
  · rw [hsinp, htinp]
    show (if m < s.lastRead then _ else t.conn.inp.replies) = XcbMap.mk
      (XcbMap.nodes (if m < s.lastRead then _ else s.conn.inp.replies) |>.filter (nodeOfOther n))
    rw [hb.without.replies]
    by_cases hlt : m < s.lastRead
    · rw [if_pos hlt, if_pos hlt]
      by_cases hmn : m = n
      · subst hmn
        have hdrop : ∀ node ∈ s.conn.inp.replies.nodes, node.1 = BitVec.ofNat 32 m →
            nodeOfOther m node = false := fun node hnode hkey => by
          rw [nodeOfOther_eq (hm.nodeOf h.filed hnode hkey)]
          simp
        obtain ⟨hnone, hrest⟩ := XcbMap.remove_filter_of_drop hdrop
        rw [hnone, hrest]
      · rw [XcbMap.remove_filter (h.other hmn fun _ => hm.toCurrent).1]
    · rw [if_neg hlt, if_neg hlt]
  · unfold discardRanges
    split
    · exact hb.others
    · by_cases hmn : m = n
      · subst hmn
        rw [markRange, markRange,
          Keyed.filter_upsert_self (first_discardRange m) first_discardMark rs,
          Keyed.filter_upsert_self (first_discardRange m) first_discardMark rs']
        exact hb.others
      · rw [markRange, markRange,
          Keyed.filter_upsert_of_ne (first_discardRange m) first_discardMark (Ne.symm hmn)
            h.entered.single.increasing,
          Keyed.filter_upsert_of_ne (first_discardRange m) first_discardMark (Ne.symm hmn)
            hb.entered.single.increasing, hb.others]
  · intro hlt
    by_cases hmn : m = n
    · subst hmn
      exact s.exists_discardRanges rs' hlt
    · obtain ⟨r, hr, hfirst, hflag⟩ := hb.marked hlt
      refine ⟨r, ?_, hfirst, hflag⟩
      unfold discardRanges
      split
      · exact hr
      · have hkept : r ∈ (markRange m rs').filter fun r => r.first ≠ m := by
          rw [markRange, Keyed.filter_upsert_self (first_discardRange m) first_discardMark rs']
          exact List.mem_filter.mpr ⟨hr, by simpa [hfirst] using Ne.symm hmn⟩
        exact (List.mem_filter.mp hkept).1
  · rw [hsevents, htevents]
    exact hb.events
  · rw [htevents]
    exact hb.silent

/-- What becomes of a packet: the same as without the discard, unless it answers the request. -/
theorem Beside.route (h : s.Kept rs) (hwire : s.wire = p :: wire) (hclose : s.Close) :
    if answers n p then route ((t.conn.inp.advance p).matchPending p) p = .discard
    else route ((t.conn.inp.advance p).matchPending p) p =
      route ((s.conn.inp.advance p).matchPending p) p := by
  have hnear := h.number_lt hwire
  have hlast := hb.lastRead_eq
  obtain ⟨currentReply, replies, events, pending, log, ht⟩ := hb.same
  have htwire : t.wire = p :: wire := by rw [ht]; exact hwire
  have htclose : t.Close := by
    unfold Close
    rw [hlast, ht]
    exact hclose
  rw [h.entered.matchPending hwire hnear hclose,
    hb.entered.matchPending htwire (by rw [hlast]; exact hnear) htclose, answers]
  cases hanswer : p.isAnswer with
  | false => rfl
  | true =>
    simp only [if_true, Bool.true_and, beq_iff_eq]
    by_cases hnumber : p.body.number = n
    · -- the request is not complete, and its entry is marked
      rw [if_pos hnumber, hnumber]
      have hlt := (h.entered.toStamped.number_of_isAnswer hwire hanswer).2.1
      obtain ⟨r, hr, hfirst, hflag⟩ := hb.marked (hnumber ▸ hlt)
      have hfound : (rs'.find? fun r => r.first = n) = some r := by
        cases hfind : rs'.find? fun r => r.first = n with
        | none =>
          have := List.find?_eq_none.mp hfind r hr
          simp [hfirst] at this
        | some q =>
          have hq : q.first = n := by simpa using List.find?_some hfind
          rw [hb.entered.single.increasing.eq_of_mem (List.mem_of_find?_eq_some hfind) hr
            (hq.trans hfirst.symm)]
      simp [hfound, Xcb.route, pendingOf_flags, hflag]
    · rw [if_neg hnumber, ← Keyed.find?_filter_of_ne (Ne.symm hnumber) rs', hb.others,
        Keyed.find?_filter_of_ne (Ne.symm hnumber) rs]

/-- What is stored afterwards. -/
theorem Beside.without_read (h : s.Kept rs) (hwire : s.wire = p :: wire) (hclose : s.Close) :
    (s.read p wire).conn.inp.Without n (s.read p wire).lastRead (t.read p wire).conn.inp := by
  have hnear := h.number_lt hwire
  have hroute := hb.route h hwire hclose
  have hp : p ∈ s.wire := by
    rw [hwire]
    exact List.mem_cons_self
  have hle := h.entered.served.lastRead_le hp
  obtain ⟨currentReply, replies, events, pending, log, rfl⟩ := hb.same
  set t := s.withInput currentReply replies events pending log with ht
  show (s.conn.inp.readPacket p).1.Without n _ (t.conn.inp.readPacket p).1
  rw [lastRead_read, nextRead, XcbIn.readPacket_fst, XcbIn.readPacket_fst]
  cases hkey : p.isKeymapNotify with
  | true =>
    have hanswer : p.isAnswer = false := by
      by_contra hanswer
      rw [isKeymapNotify_of_isAnswer (Bool.not_eq_false _ ▸ hanswer)] at hkey
      cases hkey
    have hstore : ∀ c : XcbIn Empty Stamp, Xcb.route (c.matchPending p) p ≠ .replyStore := by
      intro c
      simp only [Packet.isAnswer, Bool.or_eq_false_iff] at hanswer
      simp [XcbIn.matchPending, Xcb.route, hanswer]
    simp only [hstore, if_false, XcbIn.advance_of_keymapNotify _ _ hkey, if_true]
    exact ⟨hb.without.current, hb.without.replies⟩
  | false =>
    have hadvance := hb.without.advance h.filed h.entered.requestRead rfl hkey ⟨hle, hnear⟩
      (h.entered.widen hp hkey hnear)
    have hbuffer : (t.conn.inp.advance p).buffer p = (s.conn.inp.advance p).buffer p := by
      rw [XcbIn.buffer, XcbIn.buffer, XcbIn.advance_requestRead _ _ hkey,
        XcbIn.advance_requestRead _ _ hkey]
      rfl
    refine ⟨?_, hadvance.replies⟩
    simp only [Bool.false_eq_true, if_false]
    rw [hadvance.current]
    by_cases hnumber : p.body.number = n
    · -- nothing is stored for the request that is being read
      have hstore : Xcb.route ((t.conn.inp.advance p).matchPending p) p ≠ .replyStore := by
        by_cases hanswers : answers n p = true
        · rw [if_pos hanswers] at hroute
          rw [hroute]
          intro hdiscard
          cases hdiscard
        · have hanswer : p.isAnswer = false := by simpa [answers, hnumber] using hanswers
          simp only [Packet.isAnswer, Bool.or_eq_false_iff] at hanswer
          simp [XcbIn.matchPending, Xcb.route, hanswer]
      rw [if_neg hstore, if_pos hnumber, if_pos hnumber]
    · rw [if_neg (by simp [answers, hnumber])] at hroute
      rw [hroute, hbuffer, if_neg hnumber, if_neg hnumber]

/-- **A packet is read.** -/
theorem Beside.read (h : s.Kept rs) (hwire : s.wire = p :: wire) (hclose : s.Close)
    (hu : (s.read p wire).Stamped) :
    Beside s₀ n (s.read p wire) (t.read p wire) (s.readRanges p rs) (s.readRanges p rs') := by
  have hnear := h.number_lt hwire
  have hlast := hb.lastRead_eq
  have hcompleted := lastCompleted_of_reads hb.reads
  have hroute := hb.route h hwire hclose
  have hreads : (t.read p wire).reads = (s.read p wire).reads := by
    rw [reads_read, reads_read, hb.reads]
  have hranges : t.readRanges p rs' = s.readRanges p rs' := by
    rw [readRanges, readRanges, retiredBelow, retiredBelow, hlast, hcompleted]
  have hsame : ∃ currentReply replies events pending log,
      t.read p wire = (s.read p wire).withInput currentReply replies events pending log := by
    obtain ⟨currentReply, replies, events, pending, log, rfl⟩ := hb.same
    simp only [Session.read, XcbIn.readPacket_fst]
    cases hkey : p.isKeymapNotify with
    | true =>
      simp only [XcbIn.advance_of_keymapNotify _ _ hkey]
      exact ⟨_, _, _, _, _, rfl⟩
    | false =>
      simp only [XcbIn.advance_of_not_keymapNotify _ _ hkey]
      exact ⟨_, _, _, _, _, rfl⟩
  have hfilter : ∀ q : Packet Stamp → Bool, (q p = true → answers n p = false) →
      t.eventsOf.filter q = s.eventsOf.filter q →
      (t.read p wire).eventsOf.filter q = (s.read p wire).eventsOf.filter q := by
    intro q hq hold
    rw [eventsOf_read, eventsOf_read, List.filter_append, List.filter_append, hold]
    congr 1
    by_cases hp : q p = true
    · rw [if_neg (by simp [hq hp])] at hroute
      rw [hroute]
    · split <;> split <;> simp [hp]
  have htclose : t.Close := by
    obtain ⟨currentReply, replies, events, pending, log, ht⟩ := hb.same
    unfold Close
    rw [hlast, ht]
    exact hclose
  have htwire : t.wire = p :: wire := by
    obtain ⟨currentReply, replies, events, pending, log, ht⟩ := hb.same
    rw [ht]
    exact hwire
  refine ⟨hsame, ?_, hreads, hb.without_read h hwire hclose, ?_, ?_, ?_, ?_, ?_, ?_⟩
  · rw [← hranges]
    refine hb.entered.read htwire (by rw [hlast]; exact hnear) htclose ?_
    obtain ⟨currentReply, replies, events, pending, log, ht⟩ := hsame
    rw [ht] at hreads ⊢
    exact hu.withInput hreads
  · unfold readRanges
    split
    · exact hb.others
    · rw [List.filter_comm, hb.others, List.filter_comm]
  · intro hlt
    cases hkey : p.isKeymapNotify with
    | true =>
      rw [s.lastCompleted_read_of_keymapNotify wire hkey] at hlt
      rw [readRanges, if_pos hkey]
      exact hb.marked hlt
    | false =>
      obtain ⟨hbefore, hbelow, -⟩ := h.entered.toStamped.retiredBelow_le hwire hkey
      obtain ⟨r, hr, hfirst, hflag⟩ := hb.marked (by omega)
      rw [readRanges, hkey, if_neg Bool.false_ne_true]
      exact ⟨r, List.mem_filter.mpr ⟨hr, by simpa [hfirst] using Nat.lt_of_le_of_lt hbelow hlt⟩,
        hfirst, hflag⟩
  · exact hfilter _ (by simp) hb.events
  · rw [← hb.silent, eventsOf_read, List.filter_append]
    split
    · next hqueue =>
      by_cases hanswers : answers n p = true
      · rw [if_pos hanswers] at hroute
        rw [hroute] at hqueue
        cases hqueue
      · simp [hanswers]
    · exact List.append_nil _
  · intro m hm
    have hpolls : ∀ v : Session, (v.read p wire).polls m = v.polls m := by
      intro v
      simp [Session.polls, Session.read]
    rw [hpolls, hpolls]
    exact hb.polls m hm
  · rw [← hb.collected]
    simp [delivered, Session.read]

theorem Beside.hasError_eq : t.conn.hasError = s.conn.hasError := by
  obtain ⟨currentReply, replies, events, pending, log, ht⟩ := hb.same
  rw [ht]
  rfl

theorem Beside.wire_eq : t.wire = s.wire := by
  obtain ⟨currentReply, replies, events, pending, log, ht⟩ := hb.same
  rw [ht]
  rfl

end Beside

/-- An orderly run in which polls with the low bits of `n` are for current cookies. -/
structure Undisturbed (n : ℕ) (s : Session) (a : Action) : Prop extends Orderly s a where
  poll : ∀ cookie, a = .poll cookie → BitVec.ofNat 32 cookie = BitVec.ofNat 32 n → s.Current cookie

/-- **One step** of both runs. -/
theorem beside_step {s₀ : Session} {a : Action} (h : s.Kept rs) (hb : Beside s₀ n s t rs rs')
    (hok : Undisturbed n s a) (hstep : s.step a = some u) :
    ∃ t' qs qs', t.step a = some t' ∧ u.Kept qs ∧ Beside s₀ n u t' qs qs' := by
  have hu := synchronous_step h.synchronous hok.inFlight hstep
  have hstamped := hu.choose_spec.toStamped
  by_cases hquiet : a.isQuiet = true
  · obtain ⟨new, hpar⟩ := quiet_step h.entered.request hquiet hstep
    obtain ⟨t', ht', hb'⟩ := hb.quiet hpar hstamped
    exact ⟨t', _, _, ht', h.quiet hpar hu, hb'⟩
  · cases a with
    | takeSocket => cases hok.handoff
    | writev => cases hok.handoff
    | getSocketBack => cases hok.handoff
    | poll cookie =>
      simp only [Session.step] at hstep
      split at hstep
      · cases hstep
      · next herr =>
        cases hstep
        rw [← hb.hasError_eq] at herr
        exact ⟨t.poll cookie, rs, rs', if_neg herr, h.poll cookie hu,
          hb.poll h (hok.poll cookie rfl) hstamped⟩
    | getEvent =>
      simp only [Session.step] at hstep
      split at hstep
      · cases hstep
      · next herr =>
        cases hstep
        rw [← hb.hasError_eq] at herr
        exact ⟨t.getEvent, rs, rs', if_neg herr, h.getEvent hu, hb.getEvent hstamped⟩
    | discard request =>
      simp only [Session.step] at hstep
      split at hstep
      · cases hstep
      · next herr =>
        cases hstep
        rw [← hb.hasError_eq] at herr
        refine ⟨t.discard request, ?_⟩
        by_cases hzero : request = 0
        · rw [hzero, discard_zero, discard_zero]
          exact ⟨rs, rs', (if_neg herr).trans (by rw [discard_zero]), h, hb⟩
        · obtain ⟨m, rfl, hm⟩ := hok.cookie request rfl hzero
          exact ⟨_, _, if_neg herr, h.discard hm hzero hu, hb.discard h hm hzero hstamped⟩
    | read =>
      simp only [Session.step] at hstep
      split at hstep
      · next p wire hwire =>
        cases hstep
        refine ⟨t.read p wire, _, _, ?_, h.read hwire (hok.close rfl) hu,
          hb.read h hwire (hok.close rfl) hstamped⟩
        rw [← hb.wire_eq] at hwire
        simp only [Session.step, hwire]
      · cases hstep
    | _ => exact absurd rfl hquiet

/-! ### What callers can rely on -/

/-- The numbers in `pending_replies` increase. -/
def PendingSorted (s : Session) : Prop :=
  ∃ numbers : List ℕ,
    s.conn.inp.pendingReplies.map PendingReply.firstRequest = numbers.map (BitVec.ofNat 64) ∧
      numbers.Pairwise (· < ·) ∧ ∀ n ∈ numbers, n ≤ s.requests.length

/-- Since `s`, nothing has been stored, queued or handed back for request `n`. -/
structure Silent (n : ℕ) (s t : Session) : Prop where
  stored : ∀ b ∈ t.conn.inp.stored, b.packet.body.number ≠ n
  queued : t.eventsOf.filter (answers n) = s.eventsOf.filter (answers n)
  collected : t.delivered n = s.delivered n
  poll : t.Current n → (t.conn.inp.pollForReply (BitVec.ofNat 32 n)).1.join = none

/-- Two sessions that differ in the answers to request `n` only. -/
structure SameElse (n : ℕ) (s t : Session) : Prop where
  out : t.conn.out = s.conn.out
  socket : t.socket = s.socket
  reads : t.reads = s.reads
  enabled : ∀ a, (t.step a).isSome = (s.step a).isSome
  /-- Events and unchecked errors, handed out and queued, in this order. -/
  events : (t.eventsOf.filter fun p => !answers n p) = s.eventsOf.filter fun p => !answers n p
  polls : ∀ m, m ≠ n → t.polls m = s.polls m
  waiting : ∀ m, m ≠ n → t.conn.inp.waiting m = s.conn.inp.waiting m
  sorted : t.PendingSorted

/-- `xcb_discard_reply` silences request `n`, and nothing else: whatever happens next, it happens
as it would have without the call. -/
def Discards (s : Session) (n : ℕ) : Prop :=
  ∀ s', s.step (.discard (BitVec.ofNat 32 n)) = some s' →
    ∀ as t, Transition.Trace Session.step (Undisturbed n) s as t →
      ∃ t', Transition.Trace Session.step (fun _ _ => True) s' as t' ∧ Silent n s t' ∧
        SameElse n t t'

theorem Entered.pendingSorted (h : s.Entered rs) : s.PendingSorted := by
  refine ⟨rs.map Range.first, ?_, List.pairwise_map.mpr h.single.increasing, ?_⟩
  · rw [h.pending, List.map_map, List.map_map]
    refine List.map_congr_left fun r hr => ?_
    simp [pendingOf, h.single.last r hr]
  · intro n hn
    obtain ⟨r, hr, rfl⟩ := List.mem_map.mp hn
    exact h.single.high r hr

/-- What can happen next does not depend on what has been read. -/
theorem isSome_step_withInput (s : Session) (currentReply : List (Buffer Stamp))
    (replies : XcbMap (List (Buffer Stamp))) (events : List (Buffer Stamp))
    (pending : List PendingReply) (log : List Observation) (a : Action) :
    ((s.withInput currentReply replies events pending log).step a).isSome =
      (s.step a).isSome := by
  set t := s.withInput currentReply replies events pending log with ht
  have herr : t.conn.hasError = s.conn.hasError := rfl
  have hout : t.conn.out = s.conn.out := rfl
  have hmax : t.conn.setupMaximumRequestLength = s.conn.setupMaximumRequestLength := rfl
  have hwire : t.wire = s.wire := rfl
  cases a with
  | send call fails =>
    simp only [Session.step, herr, hout, hmax]
    split
    · rfl
    · split <;> rfl
  | handle =>
    have hcond : (t.handed (t.server.handled + 1) && t.answered) =
        (s.handed (s.server.handled + 1) && s.answered) := rfl
    simp only [Session.step, hcond]
    split <;> rfl
  | emit responseType sequence bytes =>
    have hpacket : t.packet responseType sequence bytes = s.packet responseType sequence bytes :=
      rfl
    have hserver : t.server = s.server := rfl
    have hcan : t.canEmit (s.packet responseType sequence bytes) =
        s.canEmit (s.packet responseType sequence bytes) := rfl
    simp only [Session.step, hpacket, hserver, hcan]
    split <;> rfl
  | read =>
    simp only [Session.step, hwire]
    split <;> rfl
  | _ =>
    simp only [Session.step, herr, hout]
    split <;> rfl

theorem Beside.silent_poll {s₀ : Session} (h : s.Kept rs) (hb : Beside s₀ n s t rs rs')
    (hn : t.Current n) : (t.conn.inp.pollForReply (BitVec.ofNat 32 n)).1.join = none := by
  have hcurrent : ∀ k, t.Live k → n < k + 2 ^ 31 ∧ k < n + 2 ^ 31 := hn.near
  have hfiled : t.conn.inp.Filed s.lastRead := hb.without.filed h.filed
  have hread : t.conn.inp.requestRead = BitVec.ofNat 64 s.lastRead := by
    rw [hb.entered.requestRead, hb.lastRead_eq]
  obtain ⟨-, hkey, hwaiting⟩ := hfiled.pollForReply hread (BitVec.ofNat 32 n)
  by_contra hsome
  obtain ⟨b, hb'⟩ := Option.ne_none_iff_exists'.mp hsome
  -- what is handed back was stored, so that its number is close
  obtain ⟨b', hmem, hpacket⟩ : ∃ b' ∈ t.conn.inp.stored, b'.packet = b.packet := by
    have hmem : b.packet ∈ t.conn.inp.waiting b.packet.body.number := by
      rw [hwaiting, hb']
      simp [packetsOf]
    exact List.mem_map.mp (List.mem_filter.mp hmem).1
  obtain ⟨hlo, hhi⟩ := hcurrent b.packet.body.number (.inr ⟨b', hmem, by rw [hpacket]⟩)
  have heq := (Serial.ofNat_inj (by omega) (by omega)).mp (hkey b hb')
  exact hb.without.number_ne_of_mem_stored h.filed hmem (by rw [hpacket, heq])

/-- What the two runs have in common, for those who make calls. -/
theorem Beside.result {s₀ : Session} (h : s.Kept rs) (hb : Beside s₀ n s t rs rs') :
    Silent n s₀ t ∧ SameElse n s t := by
  obtain ⟨currentReply, replies, events, pending, log, ht⟩ := hb.same
  refine ⟨⟨fun b hmem => hb.without.number_ne_of_mem_stored h.filed hmem, hb.silent, hb.collected,
    hb.silent_poll h⟩, ?_, ?_, hb.reads, ?_, hb.events, hb.polls,
    fun m hm => hb.without.waiting_eq h.filed hm, hb.entered.pendingSorted⟩
  · rw [ht]
    rfl
  · rw [ht]
    rfl
  · intro a
    rw [ht]
    exact isSome_step_withInput s currentReply replies events pending log a

/-! ### The result -/

/-- **Discarding a request silences it and nothing else.** -/
theorem discards_of_reach {size : ℕ} {maximum : BitVec 16}
    (h : Transition.Reach Session.step Orderly (Session.init size maximum) s)
    (hn : s.Discardable n) (hzero : BitVec.ofNat 32 n ≠ 0) : s.Discards n := by
  obtain ⟨rs, hs⟩ := h.invariant (P := fun s => ∃ rs, s.Kept rs)
    (fun _ _ _ h hok hstep => kept_step h hok hstep) ⟨[], kept_init size maximum⟩
  intro s' hdiscard as t hrun
  have hflight : InFlight s (.discard (BitVec.ofNat 32 n)) := ⟨rfl, fun hread => nomatch hread⟩
  have hu := synchronous_step hs.synchronous hflight hdiscard
  simp only [Session.step] at hdiscard
  split at hdiscard
  · cases hdiscard
  · cases hdiscard
    have hboth : ∃ t' qs qs', Transition.Trace Session.step (fun _ _ => True)
        (s.discard (BitVec.ofNat 32 n)) as t' ∧ t.Kept qs ∧ Beside s n t t' qs qs' := by
      refine hrun.invariant (P := fun as t => ∃ t' qs qs', Transition.Trace Session.step
        (fun _ _ => True) (s.discard (BitVec.ofNat 32 n)) as t' ∧ t.Kept qs ∧
          Beside s n t t' qs qs') ?_
        ⟨_, rs, _, .nil, hs, hs.beside hn hzero hu.choose_spec.toStamped⟩
      rintro as t a u ⟨t', qs, qs', htrace, ht, hb⟩ hok hstep
      obtain ⟨u', ps, ps', hstep', hu', hb'⟩ := beside_step ht hb hok hstep
      exact ⟨u', ps, ps', htrace.snoc trivial hstep', hu', hb'⟩
    obtain ⟨t', qs, qs', htrace, ht, hb⟩ := hboth
    exact ⟨t', htrace, hb.result ht⟩

/-- A request that is sent, and discarded before anything is read. -/
theorem discards_sendWord : ((Session.init 16384 65535).sendWord false true).Discards 1 := by
  have hok : AllowsWords fun _ a => a.isHandoff = false ∧ a.isDiscard = false :=
    ⟨fun _ _ _ => ⟨rfl, rfl⟩, fun _ => ⟨rfl, rfl⟩, fun _ => ⟨rfl, rfl⟩, fun _ _ => ⟨rfl, rfl⟩,
      fun _ => ⟨rfl, rfl⟩⟩
  have hlength := words_sendWord_init.length
  have hreach : Transition.Reach Session.step Orderly (Session.init 16384 65535)
      ((Session.init 16384 65535).sendWord false true) := by
    refine reach_of_length_le (reach_sendWord hok (words_init (fun _ => false) 16384).toFlushed
      false true) fun t a hle hok => ⟨hok.1, fun _ => ?_, ?_⟩
    · unfold Close
      omega
    · rintro request rfl
      cases hok.2
  have hstored : ((Session.init 16384 65535).sendWord false true).conn.inp.stored = [] := by
    obtain ⟨socket, queue, queueLen, written, hout⟩ :=
      out_sendWord (Session.init 16384 65535) false true
    rw [hout, number_eq, numberRequest_fst]
    rfl
  have hlive : ∀ m, ((Session.init 16384 65535).sendWord false true).Live m → m ≤ 1 := by
    rintro m (⟨-, hm⟩ | ⟨b, hb, -⟩)
    · exact hm.trans hlength.le
    · rw [hstored] at hb
      cases hb
  refine discards_of_reach hreach ⟨⟨Nat.one_pos, hlength.ge, fun m hm => ?_⟩, fun m hm => ?_⟩
    (by decide)
  · have := hlive m hm
    omega
  · obtain rfl | rfl : m = 0 ∨ m = 1 := by
      have := hlive m hm
      omega
    all_goals decide

/-! ### The bound is needed -/

/-- Only requests of one word, and a server that answers nothing but errors. -/
def Worded : Action → Prop
  | .send call fails => ∃ isvoid own, call = wordCall isvoid ∧ fails = onlyOwn own
  | .flush | .handle | .read => True
  | .emit responseType _ _ => responseType = xcbError
  | _ => False

/-- Then every entry is that of a `GetInputFocus`. -/
structure Synced (s : Session) : Prop where
  maximum : s.conn.setupMaximumRequestLength = 65535#16
  sync : ∀ pend ∈ s.conn.inp.pendingReplies,
    ∃ r ∈ s.requests, r.isvoid = false ∧ r.fails = false

theorem synced_step {a : Action} (h : s.Synced) (hok : Worded a) (hstep : s.step a = some u) :
    u.Synced := by
  cases step_cases hstep with
  | @send call fails req _ _ _ _ _ _ hreq =>
    obtain ⟨isvoid, own, rfl, rfl⟩ := hok
    rw [h.maximum, prepare_wordCall] at hreq
    cases hreq
    rw [number_eq]
    refine ⟨?_, ?_⟩
    · show (s.conn.numberRequest (wordRequest isvoid)).1.setupMaximumRequestLength = _
      rw [numberRequest_fst]
      exact h.maximum
    · show ∀ pend ∈ (s.conn.numberRequest (wordRequest isvoid)).1.inp.pendingReplies,
        ∃ r ∈ s.requests ++ newRequests _ _ _ _ _, _
      rw [numberRequest_fst, pending_wordRequest, List.append_nil]
      generalize (s.conn.numberRequest (wordRequest isvoid)).2 = count
      intro pend hpend
      rcases List.mem_append.mp hpend with hpend | hpend
      · obtain ⟨r, hr, hsync⟩ := h.sync pend hpend
        exact ⟨r, List.mem_append_left _ hr, hsync⟩
      · cases count with
        | zero => cases hpend
        | succ count =>
          exact ⟨_, List.mem_append_right _ List.mem_cons_self, rfl, rfl⟩
  | refuse hnone =>
    obtain ⟨isvoid, -, rfl, -⟩ := hok
    rw [h.maximum, prepare_wordCall] at hnone
    cases hnone
  | @read p wire hwire =>
    refine ⟨h.maximum, fun pend hpend => h.sync pend ?_⟩
    have hpending : (s.read p wire).conn.inp.pendingReplies =
        (s.conn.inp.advance p).pendingReplies := pendingReplies_readPacket _ _
    rw [hpending] at hpend
    cases hkey : p.isKeymapNotify with
    | true => rwa [XcbIn.advance_of_keymapNotify _ _ hkey] at hpend
    | false =>
      rw [XcbIn.advance_pendingReplies _ _ hkey] at hpend
      exact (List.dropWhile_sublist _).subset hpend
  | takeSocket => cases hok
  | writev => cases hok
  | getSocketBack => cases hok
  | awaitReply => cases hok
  | poll => cases hok
  | getEvent => cases hok
  | discard => cases hok
  | _ => exact ⟨h.maximum, h.sync⟩

/-- Discarding a request does not concern the writing side, nor the numbers read. -/
theorem Words.discard {void : ℕ → Bool} {sent handled read : ℕ} {expected : BitVec 64}
    (h : s.Words void sent handled read expected) (request : BitVec 32) :
    (s.discard request).Words void sent handled read expected := by
  obtain ⟨currentReply, replies, pending, heq⟩ :=
    s.conn.inp.discardReply_eq s.conn.out.request request
  have hinp : ∃ currentReply replies pending, (s.discard request).conn.inp =
      { s.conn.inp with
        currentReply := currentReply, replies := replies, pendingReplies := pending } := by
    simp only [Session.discard]
    split
    · exact ⟨s.conn.inp.currentReply, s.conn.inp.replies, s.conn.inp.pendingReplies, rfl⟩
    · exact ⟨_, _, _, heq⟩
  obtain ⟨currentReply, replies, pending, hinp⟩ := hinp
  refine ⟨⟨h.hasError, h.maximum, h.returnSocket, h.queueLen, h.request, h.requestWritten, ?_,
    h.length, h.encodings, h.socket⟩, ?_, h.wire, h.handled_eq, h.handled_le, h.answered, h.kind⟩
  · rw [hinp]
    exact h.requestExpected
  · rw [hinp]
    exact h.requestRead

theorem handled_handle_discard (s : Session) (request : BitVec 32) :
    (s.discard request).handle.server.handled = s.handle.server.handled := rfl

/-- A request is discarded before it is answered; its error is read as that of an earlier one, and
finds no entry. -/
theorem eventsOf_discard_late {void : ℕ → Bool} {sent handled read : ℕ} {expected : BitVec 64}
    (hs : s.Words void sent handled read expected) (hpending : s.conn.inp.pendingReplies = [])
    (hzero : BitVec.ofNat 32 n ≠ 0)
    (hlater : 0 < sequenceCompare32 (BitVec.ofNat 32 n) (low32 (BitVec.ofNat 64 read)))
    (hcookie : widenRequest (BitVec.ofNat 64 sent) (BitVec.ofNat 32 n) = BitVec.ofNat 64 n)
    (hwiden : widenSequence (BitVec.ofNat 64 read) (BitVec.ofNat 16 (handled + 1)) =
      BitVec.ofNat 64 read)
    (hcovers : (pendingDiscard (BitVec.ofNat 64 n)).covers (BitVec.ofNat 64 read) = false) :
    (s.discard (BitVec.ofNat 32 n)).serveWord.eventsOf = s.eventsOf ++ [s.handle.wordError] := by
  have hinp : (s.discard (BitVec.ofNat 32 n)).conn.inp =
      { s.conn.inp with pendingReplies := [pendingDiscard (BitVec.ofNat 64 n)] } := by
    show (if BitVec.ofNat 32 n = 0 then s.conn.inp else _ : XcbIn Empty Stamp) = _
    rw [← hs.requestRead] at hlater
    rw [if_neg hzero, XcbIn.discardReply, if_neg (by omega), if_neg (by omega), hpending,
      hs.request,
      hcookie]
    rfl
  set t := s.discard (BitVec.ofNat 32 n) with ht
  have htwords : t.Words void sent handled read expected := hs.discard _
  have hread : (t.conn.inp.advance t.handle.wordError).requestRead = BitVec.ofNat 64 read := by
    rw [XcbIn.advance_requestRead _ _ isKeymapNotify_wordError, htwords.requestRead]
    show widenSequence _ (BitVec.ofNat 16 (t.server.handled + 1)) = _
    rw [htwords.handled_eq, hwiden]
  have hleft : ∀ pend ∈ (t.conn.inp.advance t.handle.wordError).pendingReplies,
      pend = pendingDiscard (BitVec.ofNat 64 n) := by
    intro pend hpend
    rw [XcbIn.advance_pendingReplies _ _ isKeymapNotify_wordError, hinp] at hpend
    exact List.mem_singleton.mp ((List.dropWhile_sublist _).subset hpend)
  have hmatch : (t.conn.inp.advance t.handle.wordError).matchPending t.handle.wordError = none := by
    have herror : t.handle.wordError.isError = true := rfl
    rw [XcbIn.matchPending, herror, Bool.true_or, if_pos rfl, hread]
    cases hhead : (t.conn.inp.advance t.handle.wordError).pendingReplies.head? with
    | none => rfl
    | some pend =>
      rw [hleft pend (List.mem_of_mem_head? hhead)]
      simp [Option.filter, hcovers]
  have hevents : t.eventsOf = s.eventsOf := by
    rw [eventsOf, hinp]
    rfl
  rw [serveWord, eventsOf_read]
  show t.eventsOf ++ (if route ((t.conn.inp.advance t.handle.wordError).matchPending
    t.handle.wordError) t.handle.wordError = .eventQueue then [t.handle.wordError] else []) = _
  rw [hmatch, hevents]
  rfl

/-- Without the bound on the requests in flight, an error is queued after the request was
discarded. -/
theorem not_discards_desync :
    ∃ s : Session, Transition.Reach Session.step (fun _ a => a.isHandoff = false ∧
        a.isDiscard = false) (Session.init 16384 65535) s ∧
      s.requests.length < 2 ^ 64 ∧ s.Current (2 ^ 63 + 65538) ∧
        ¬ s.Discards (2 ^ 63 + 65538) := by
  have hok : AllowsWords fun _ a => Worded a ∧ Plain a :=
    ⟨fun _ isvoid own => ⟨⟨isvoid, own, rfl, rfl⟩, rfl⟩, fun _ => ⟨trivial, trivial⟩,
      fun _ => ⟨trivial, trivial⟩, fun _ _ => ⟨rfl, rfl⟩, fun _ => ⟨trivial, trivial⟩⟩
  obtain ⟨s, hreach, expected, hs⟩ := exists_late hok 16384
  have hserved := served_of_reach hreach
  have hstored : s.conn.inp.stored = [] :=
    (hreach.invariant (fun _ _ _ h hok hstep => uncollected_step h hok.2 hstep)
      (show (Session.init 16384 65535).Uncollected from
        ⟨rfl, List.forall_mem_nil _, List.forall_mem_nil _⟩)).stored
  -- no request of the run is a `GetInputFocus` that does not fail
  have hpending : s.conn.inp.pendingReplies = [] := by
    have hsynced := hreach.invariant (fun _ _ _ h hok hstep => synced_step h hok.1 hstep)
      (show (Session.init 16384 65535).Synced from ⟨rfl, List.forall_mem_nil _⟩)
    rw [List.eq_nil_iff_forall_not_mem]
    intro pend hpend
    obtain ⟨r, hr, hvoid, hfails⟩ := hsynced.sync pend hpend
    obtain ⟨i, hi⟩ := List.getElem?_of_mem hr
    have hlt := (List.getElem?_eq_some_iff.mp hi).1
    rw [hs.length] at hlt
    obtain ⟨q, hq, hqvoid, hqfails⟩ := hs.kind (i + 1) (Nat.succ_pos i) hlt
    have hqr : q = r := by
      have := (request?_eq_some_iff.mp hq).2
      rw [Nat.add_sub_cancel, hi] at this
      exact (Option.some_inj.mp this).symm
    rw [hqr] at hqvoid hqfails
    rw [hqfails, ← hqvoid, hvoid] at hfails
    cases hfails
  have hread : 2 ^ 63 + 2 ≤ s.lastRead := by
    obtain ⟨r, hr, -, hfails⟩ := hs.kind (2 ^ 63 + 2) (by norm_num) (by norm_num)
    rw [lateVoid_eq_false_iff.mpr (.inl (Nat.le_refl _))] at hfails
    obtain ⟨p, hp, herror, hnumber⟩ := hserved.failed (2 ^ 63 + 2) ⟨r, hr, hfails⟩
      (.inl (by rw [hs.handled_eq]; norm_num))
    rw [packets, hs.wire, List.append_nil] at hp
    have hanswer : p.isAnswer = true := by rw [Packet.isAnswer, herror, Bool.or_true]
    rw [← hnumber]
    exact hserved.le_lastRead hp (isKeymapNotify_of_isAnswer hanswer)
  refine ⟨s, hreach.mono fun s a hok => ?_, hs.length.trans_lt (by norm_num), ⟨by norm_num,
    hs.length.ge, ?_⟩, ?_⟩
  · cases a with
    | send | flush | handle | emit | read => exact ⟨rfl, rfl⟩
    | _ => cases hok.1
  · rintro m (⟨hlo, hhi⟩ | ⟨b, hb, -⟩)
    · rw [hs.length] at hhi
      omega
    · rw [hstored] at hb
      cases hb
  · intro hdiscards
    have hfails : lateVoid (2 ^ 63 + 65537 + 1) = false :=
      lateVoid_eq_false_iff.mpr (.inr (by norm_num))
    have hstep : s.step (.discard (BitVec.ofNat 32 (2 ^ 63 + 65538))) =
        some (s.discard (BitVec.ofNat 32 (2 ^ 63 + 65538))) := by
      simp [Session.step, hs.hasError]
    have ht := hs.discard (BitVec.ofNat 32 (2 ^ 63 + 65538))
    obtain ⟨hhandle, hemit, hlast⟩ := hs.step_serveWord (by norm_num) hfails
    obtain ⟨hhandle', hemit', hlast'⟩ := ht.step_serveWord (by norm_num) hfails
    rw [handled_handle_discard] at hemit'
    have hclose : (s.handle.emit s.handle.wordError).Close := by
      have hlength := hs.length
      unfold Close
      show s.requests.length + 1 < s.lastRead + 2 ^ 63
      omega
    have hsilentStep : ∀ {s : Session} {a : Action}, a.isHandoff = false →
        (a = .read → s.Close) → (∀ request, a ≠ .discard request) → (∀ cookie, a ≠ .poll cookie) →
          Undisturbed (2 ^ 63 + 65538) s a :=
      fun hhandoff hclose hdiscard hpoll =>
        ⟨⟨hhandoff, hclose, fun request h => absurd h (hdiscard request)⟩,
          fun cookie h => absurd h (hpoll cookie)⟩
    have hrun : Transition.Trace Session.step (Undisturbed (2 ^ 63 + 65538)) s
        ((([] ++ [.handle]) ++ [.emit xcbError (BitVec.ofNat 16 s.handle.server.handled) []]) ++
          [.read]) s.serveWord :=
      ((Transition.Trace.nil.snoc (hsilentStep rfl (fun h => by cases h) (fun _ h => by cases h)
        fun _ h => by cases h) hhandle).snoc (hsilentStep rfl (fun h => by cases h)
          (fun _ h => by cases h) fun _ h => by cases h) hemit).snoc
            (hsilentStep rfl (fun _ => hclose) (fun _ h => by cases h) fun _ h => by cases h) hlast
    obtain ⟨t', hrun', hsilent, -⟩ := hdiscards _ hstep _ _ hrun
    have htwin : Transition.Trace Session.step (fun _ _ => True)
        (s.discard (BitVec.ofNat 32 (2 ^ 63 + 65538)))
        ((([] ++ [.handle]) ++ [.emit xcbError (BitVec.ofNat 16 s.handle.server.handled) []]) ++
          [.read]) (s.discard (BitVec.ofNat 32 (2 ^ 63 + 65538))).serveWord :=
      ((Transition.Trace.nil.snoc trivial hhandle').snoc trivial hemit').snoc trivial hlast'
    have hqueued := hsilent.queued
    have hevents := eventsOf_discard_late hs hpending
      (show BitVec.ofNat 32 (2 ^ 63 + 65538) ≠ 0 by decide)
      (by decide)
      (widenRequest_ofNat (Nat.le_refl _) (by omega)) (by decide) (by decide)
    have hanswers : answers (2 ^ 63 + 65538) s.handle.wordError = true := by
      have hnumber : s.handle.wordError.body.number = s.server.handled + 1 := rfl
      rw [answers, hnumber, hs.handled_eq]
      rfl
    rw [hrun'.unique htwin, hevents, List.filter_append,
      List.filter_cons_of_pos hanswers] at hqueued
    exact List.cons_ne_nil _ _ (List.append_right_eq_self.mp hqueued)

end Session

end Xcb
