import Xcb.Pending

/-!
# Two sessions that differ in what they have read

A session that has discarded a request holds other packets and other entries than one that has not,
and has written the same. Polling, reading and sending are laid side by side for two such sessions.

## Main definitions

* `XcbIn.Without` — the stored packets of another input part, less those of one request
* `Session.withInput` — a session with another input part
* `Session.Parallel` — a step that does the same whatever has been read

## Main results

* `XcbIn.Without.poll_other`, `XcbIn.Without.poll_own` — polls in the two sessions
* `Session.quiet_step` — calls that do not look at what has been read are parallel
-/

namespace Xcb

open Ranges (Range)

variable {τ α : Type}

/-! ### Stored packets without those of one request -/

/-- Does this node of the map of replies belong to another request? -/
def nodeOfOther (n : ℕ) (node : BitVec 32 × List (Buffer Stamp)) : Bool :=
  node.2.all fun b => b.packet.body.number ≠ n

theorem nodeOfOther_eq {n k : ℕ} {node : BitVec 32 × List (Buffer Stamp)} (h : NodeOf k node) :
    nodeOfOther n node = decide (k ≠ n) := by
  obtain ⟨head, next, hcons⟩ := List.exists_cons_of_ne_nil h.ne_nil
  have hnumber := h.number
  rw [hcons] at hnumber
  have hhead := hnumber head List.mem_cons_self
  by_cases hkn : k = n
  · simp [nodeOfOther, hcons, hhead, hkn]
  · have hall : ∀ b ∈ next, b.packet.body.number ≠ n := fun b hb => by
      rw [hnumber b (List.mem_cons_of_mem _ hb)]
      exact hkn
    simpa [nodeOfOther, hcons, hhead, hkn] using hall

/-- What is stored in `d` is what is stored in `c` for other requests than `n`. -/
structure XcbIn.Without (n last : ℕ) (c d : XcbIn τ Stamp) : Prop where
  current : d.currentReply = if last = n then [] else c.currentReply
  replies : d.replies = ⟨c.replies.nodes.filter (nodeOfOther n)⟩

section remove

variable {list : XcbMap α} {key : BitVec 32} {keep : BitVec 32 × α → Bool}

/-- Other keys are found as before. -/
theorem XcbMap.remove_filter (h : ∀ node ∈ list.nodes, node.1 = key → keep node = true) :
    XcbMap.remove ⟨list.nodes.filter keep⟩ key =
      ((list.remove key).1, ⟨(list.remove key).2.nodes.filter keep⟩) := by
  obtain ⟨nodes⟩ := list
  induction nodes with
  | nil => rfl
  | cons node nodes ih =>
    obtain ⟨k, data⟩ := node
    have hrest := ih fun node hnode => h node (List.mem_cons_of_mem _ hnode)
    by_cases hkey : k = key
    · subst hkey
      rw [List.filter_cons_of_pos (h _ List.mem_cons_self rfl), XcbMap.remove_cons_of_eq,
        XcbMap.remove_cons_of_eq]
    · rw [XcbMap.remove_cons_of_ne hkey]
      by_cases hkeep : keep (k, data) = true
      · rw [List.filter_cons_of_pos hkeep, XcbMap.remove_cons_of_ne hkey, hrest,
          List.filter_cons_of_pos hkeep]
      · rw [List.filter_cons_of_neg hkeep, hrest, List.filter_cons_of_neg hkeep]

/-- A key all of whose nodes are left out is not found, and removing one changes nothing. -/
theorem XcbMap.remove_filter_of_drop
    (h : ∀ node ∈ list.nodes, node.1 = key → keep node = false) :
    XcbMap.remove ⟨list.nodes.filter keep⟩ key = (none, ⟨list.nodes.filter keep⟩) ∧
      (list.remove key).2.nodes.filter keep = list.nodes.filter keep := by
  constructor
  · rcases (XcbMap.mk (list.nodes.filter keep)).remove_cases key with
      ⟨data, before, after, hnodes, -⟩ | ⟨-, hremove⟩
    · have hmem : (key, data) ∈ list.nodes.filter keep := by
        rw [show list.nodes.filter keep = _ from hnodes]
        simp
      obtain ⟨hnode, hkeep⟩ := List.mem_filter.mp hmem
      rw [h _ hnode rfl] at hkeep
      cases hkeep
    · exact hremove
  · rcases list.remove_cases key with ⟨data, before, after, hnodes, hremove⟩ | ⟨-, hremove⟩
    · have hdrop := h (key, data) (by rw [hnodes]; simp) rfl
      rw [hremove, hnodes, List.filter_append, List.filter_append,
        List.filter_cons_of_neg (by simp [hdrop])]
    · rw [hremove]

end remove

namespace XcbIn.Without

variable {c d : XcbIn τ Stamp} {n k last : ℕ} {request : BitVec 32}

/-- The rest of a node belongs to the same request. -/
theorem nodeOf_next {key : BitVec 32} {head : Buffer Stamp} {next : List (Buffer Stamp)}
    (h : NodeOf k (key, head :: next)) (hne : next ≠ []) : NodeOf k (key, next) :=
  ⟨h.key, hne, fun b hb => h.number b (List.mem_cons_of_mem head hb)⟩

/-- **A poll for another request** finds the same. -/
theorem poll_other (h : c.Without n last d) (hfiled : c.Filed last)
    (hread : d.requestRead = c.requestRead) (hcompleted : d.requestCompleted = c.requestCompleted)
    (hkeys : ∀ node ∈ c.replies.nodes, node.1 = request → nodeOfOther n node = true)
    (hlast : request = low32 c.requestRead → last ≠ n) :
    (d.pollForReply request).1 = (c.pollForReply request).1 ∧
      (c.pollForReply request).2.Without n last (d.pollForReply request).2 := by
  unfold XcbIn.pollForReply
  rw [hread, hcompleted]
  split
  · exact ⟨rfl, h⟩
  · split
    · rw [h.replies, XcbMap.remove_filter hkeys]
      rcases c.replies.remove_cases request with ⟨data, before, after, hnodes, hremove⟩ |
        ⟨-, hremove⟩
      · have hmem : (request, data) ∈ c.replies.nodes := by rw [hnodes]; simp
        obtain ⟨k, -, hof⟩ := hfiled.node _ hmem
        obtain ⟨head, next, rfl⟩ := List.exists_cons_of_ne_nil hof.ne_nil
        have hk : k ≠ n := by simpa [nodeOfOther_eq hof] using hkeys _ hmem rfl
        rw [hremove]
        refine ⟨rfl, h.current, ?_⟩
        by_cases hnext : next = []
        · simp only [if_pos hnext]
        · simp only [if_neg hnext, XcbMap.put, List.filter_append,
            List.filter_cons_of_pos (show nodeOfOther n (request, next) = true by
              simpa [nodeOfOther_eq (nodeOf_next hof hnext)] using hk), List.filter_nil]
      · rw [hremove]
        exact ⟨rfl, h.current, rfl⟩
    · by_cases hsame : sequenceCompare32 request (low32 c.requestRead) = 0
      · have hcurrent : d.currentReply = c.currentReply := by
          rw [h.current, if_neg (hlast (eq_of_sequenceCompare32_eq_zero hsame))]
        rw [hcurrent]
        split
        · refine ⟨rfl, ?_, h.replies⟩
          rw [if_neg (hlast (eq_of_sequenceCompare32_eq_zero hsame))]
        · split <;> exact ⟨rfl, h⟩
      · simp only [hsame, false_and, if_false]
        split <;> exact ⟨rfl, h⟩

/-- **A poll for the request itself** finds nothing, and only the request loses by it. -/
theorem poll_own (h : c.Without n last d) (hread : d.requestRead = c.requestRead)
    (hcompleted : d.requestCompleted = c.requestCompleted)
    (hkeys : ∀ node ∈ c.replies.nodes, node.1 = BitVec.ofNat 32 n → NodeOf n node)
    (hlast : BitVec.ofNat 32 n = low32 c.requestRead → last = n) :
    (d.pollForReply (BitVec.ofNat 32 n)).1.join = none ∧
      (c.pollForReply (BitVec.ofNat 32 n)).2.Without n last
        (d.pollForReply (BitVec.ofNat 32 n)).2 := by
  have hdrop : ∀ node ∈ c.replies.nodes, node.1 = BitVec.ofNat 32 n →
      nodeOfOther n node = false := fun node hnode hkey => by
    simp [nodeOfOther_eq (hkeys node hnode hkey)]
  obtain ⟨hnone, hrest⟩ := XcbMap.remove_filter_of_drop hdrop
  unfold XcbIn.pollForReply
  rw [hread, hcompleted]
  split
  · exact ⟨rfl, h⟩
  · split
    · rw [h.replies, hnone]
      refine ⟨rfl, ?_⟩
      rcases c.replies.remove_cases (BitVec.ofNat 32 n) with
        ⟨data, before, after, hnodes, hremove⟩ | ⟨-, hremove⟩
      · have hof := hkeys _ (show (BitVec.ofNat 32 n, data) ∈ c.replies.nodes by
          rw [hnodes]; simp) rfl
        obtain ⟨head, next, rfl⟩ := List.exists_cons_of_ne_nil hof.ne_nil
        rw [hremove] at hrest ⊢
        refine ⟨h.current, ?_⟩
        rw [← hrest]
        by_cases hnext : next = []
        · simp only [if_pos hnext]
        · simp only [if_neg hnext, XcbMap.put, List.filter_append,
            List.filter_cons_of_neg (show ¬ nodeOfOther n (BitVec.ofNat 32 n, next) = true by
              simp [nodeOfOther_eq (nodeOf_next hof hnext)]), List.filter_nil, List.append_nil]
      · rw [hremove]
        exact ⟨h.current, rfl⟩
    · by_cases hsame : sequenceCompare32 (BitVec.ofNat 32 n) (low32 c.requestRead) = 0
      · have hcurrent := h.current
        have heq := hlast (eq_of_sequenceCompare32_eq_zero hsame)
        rw [if_pos heq] at hcurrent
        have hnothing : ∀ currentReply, XcbIn.Without n last
            { c with currentReply := currentReply } d := fun currentReply =>
          ⟨by rw [hcurrent, if_pos heq], h.replies⟩
        simp only [hsame, hcurrent, true_and, ne_eq, not_true_eq_false, if_false]
        by_cases hcompl : sequenceCompare32 (BitVec.ofNat 32 n) (low32 c.requestCompleted) = 0
        · simp only [hcompl, if_true]
          refine ⟨rfl, ?_⟩
          split
          · exact hnothing _
          · exact h
        · simp only [hcompl, if_false]
          refine ⟨rfl, ?_⟩
          split
          · exact hnothing _
          · exact h
      · simp only [hsame, false_and, if_false]
        split <;> exact ⟨rfl, h⟩

/-- The replies of the last request are filed, or are those that are missing. -/
theorem advance (h : c.Without n last d) (hfiled : c.Filed last)
    (hlast : c.requestRead = BitVec.ofNat 64 last) (hread : d.requestRead = c.requestRead)
    {p : Packet Stamp} (hkey : p.isKeymapNotify = false)
    (hnear : last ≤ p.body.number ∧ p.body.number < last + 2 ^ 16)
    (hwiden : widenSequence c.requestRead p.sequence = BitVec.ofNat 64 p.body.number) :
    (c.advance p).Without n p.body.number (d.advance p) := by
  have hwiden' := hwiden
  rw [← hread] at hwiden'
  rw [XcbIn.advance_of_not_keymapNotify _ _ hkey, XcbIn.advance_of_not_keymapNotify _ _ hkey,
    hwiden, hwiden']
  simp only [XcbIn.advanceRead, hread, hlast]
  by_cases hsame : p.body.number = last
  · rw [hsame]
    simp only [ne_eq, not_true_eq_false, false_and, if_false]
    exact ⟨h.current, h.replies⟩
  · have hne : BitVec.ofNat 64 p.body.number ≠ BitVec.ofNat 64 last := fun heq =>
      hsame ((Serial.ofNat_inj (by omega) (by omega)).mp heq)
    simp only [hne, ne_eq, not_false_eq_true, true_and, if_true]
    refine ⟨(ite_self _).symm, ?_⟩
    rw [h.current, h.replies]
    by_cases hown : last = n
    · -- what is filed belongs to the discarded request
      rw [if_pos hown, if_neg (not_not.mpr rfl)]
      by_cases hempty : c.currentReply = []
      · rw [if_neg (not_not.mpr hempty)]
      · have hof : NodeOf last (low32 (BitVec.ofNat 64 last), c.currentReply) :=
          ⟨low32_ofNat last, hempty, hfiled.current⟩
        rw [if_pos hempty, XcbMap.put, List.filter_append,
          List.filter_cons_of_neg (by rw [nodeOfOther_eq hof]; simp [hown]), List.filter_nil,
          List.append_nil]
    · rw [if_neg hown]
      by_cases hempty : c.currentReply = []
      · rw [if_neg (not_not.mpr hempty), if_neg (not_not.mpr hempty)]
      · have hof : NodeOf last (low32 (BitVec.ofNat 64 last), c.currentReply) :=
          ⟨low32_ofNat last, hempty, hfiled.current⟩
        rw [if_pos hempty, if_pos hempty, XcbMap.put, XcbMap.put, List.filter_append,
          List.filter_cons_of_pos (by rw [nodeOfOther_eq hof]; simpa using hown), List.filter_nil]

/-- The packets of other requests are not missing. -/
theorem waiting_eq (h : c.Without n last d) (hfiled : c.Filed last) {m : ℕ} (hm : m ≠ n) :
    d.waiting m = c.waiting m := by
  have hcurrent : packetsOf m d.currentReply = packetsOf m c.currentReply := by
    rw [h.current]
    split
    · next heq =>
      refine (packetsOf_eq_nil fun b hb => ?_).symm
      rw [hfiled.current b hb, heq]
      exact hm.symm
    · rfl
  have hnodes : ∀ nodes : List (BitVec 32 × List (Buffer Stamp)),
      (∀ node ∈ nodes, ∃ k, NodeOf k node) →
      packetsOf m ((nodes.filter (nodeOfOther n)).flatMap (·.2)) =
        packetsOf m (nodes.flatMap (·.2)) := by
    intro nodes hall
    induction nodes with
    | nil => rfl
    | cons node nodes ih =>
      have hrest := ih fun node hnode => hall node (List.mem_cons_of_mem _ hnode)
      obtain ⟨k, hof⟩ := hall node List.mem_cons_self
      by_cases hk : k = n
      · have hnil : packetsOf m node.2 = [] := packetsOf_eq_nil fun b hb => by
          rw [hof.number b hb, hk]
          exact hm.symm
        rw [List.filter_cons_of_neg (by simp [nodeOfOther_eq hof, hk]), hrest, List.flatMap_cons,
          packetsOf_append, hnil, List.nil_append]
      · rw [List.filter_cons_of_pos (by simpa [nodeOfOther_eq hof] using hk), List.flatMap_cons,
          List.flatMap_cons, packetsOf_append, packetsOf_append, hrest]
  rw [XcbIn.Filed.waiting_eq, XcbIn.Filed.waiting_eq, hcurrent, h.replies,
    hnodes _ fun node hnode => (hfiled.node node hnode).imp fun k hk => hk.2]

theorem filed (h : c.Without n last d) (hfiled : c.Filed last) : d.Filed last := by
  have hnodes : d.replies.nodes.Sublist c.replies.nodes := by
    rw [h.replies]
    exact List.filter_sublist
  refine ⟨fun node hnode => hfiled.node node (hnodes.subset hnode), hfiled.distinct.sublist hnodes,
    fun b hb => ?_⟩
  rw [h.current] at hb
  split at hb
  · cases hb
  · exact hfiled.current b hb

/-- And those of the request are. -/
theorem number_ne_of_mem_stored (h : c.Without n last d) (hfiled : c.Filed last) {b : Buffer Stamp}
    (hb : b ∈ d.stored) : b.packet.body.number ≠ n := by
  rcases List.mem_append.mp hb with hb | hb
  · obtain ⟨node, hnode, hb⟩ := List.mem_flatMap.mp hb
    rw [h.replies] at hnode
    have hother := (List.mem_filter.mp hnode).2
    simpa using List.all_eq_true.mp hother b hb
  · rw [h.current] at hb
    split at hb
    · cases hb
    · next hne =>
      rw [hfiled.current b hb]
      exact hne

end XcbIn.Without

/-- Calls and server steps that do not look at what has been read. -/
def Action.isQuiet : Action → Bool
  | .send _ _ | .flush | .awaitReply _ | .handle | .emit _ _ _ => true
  | _ => false

namespace Session

variable {s t u : Session} {n m : ℕ} {rs rs' : List (Range Handling)} {p : Packet Stamp}
  {wire : List (Packet Stamp)}

/-! ### Two runs -/

/-- A session that has read the same packets and done something else with them. -/
def withInput (s : Session) (currentReply : List (Buffer Stamp))
    (replies : XcbMap (List (Buffer Stamp))) (events : List (Buffer Stamp))
    (pending : List PendingReply) (log : List Observation) : Session :=
  { s with
    conn := { s.conn with
      inp := { s.conn.inp with
        currentReply := currentReply, replies := replies, events := events,
        pendingReplies := pending } }
    log := log }

section withInput

variable (currentReply : List (Buffer Stamp)) (replies : XcbMap (List (Buffer Stamp)))
  (events : List (Buffer Stamp)) (pending : List PendingReply) (log : List Observation)

theorem withInput_writeBlock (s : Session) (parts : List (List UInt8)) :
    (s.withInput currentReply replies events pending log).writeBlock parts =
      (s.writeBlock parts).withInput currentReply replies events pending log := by
  by_cases h : (s.conn.out.writeBlock parts).2 = []
  · have hs : s.writeBlock parts =
        { s with conn := { s.conn with out := (s.conn.out.writeBlock parts).1 } } := if_pos h
    rw [hs]
    exact if_pos h
  · have hs : s.writeBlock parts =
        ({ s with conn := { s.conn with out := (s.conn.out.writeBlock parts).1 } } :
          Session).outSend (s.conn.out.writeBlock parts).2 := if_neg h
    rw [hs]
    exact if_neg h

theorem withInput_flushTo (s : Session) (request : BitVec 64) :
    (s.withInput currentReply replies events pending log).flushTo request =
      (s.flushTo request).withInput currentReply replies events pending log := by
  by_cases hwritten : sequenceCompare s.conn.out.requestWritten request ≥ 0
  · rw [show s.flushTo request = s from if_pos hwritten]
    exact if_pos hwritten
  · by_cases hqueue : s.conn.out.queueLen ≠ 0
    · have hs : s.flushTo request =
          ({ s with conn := { s.conn with out := s.conn.out.takeQueue.1 } } :
            Session).outSend s.conn.out.takeQueue.2 := (if_neg hwritten).trans (if_pos hqueue)
      rw [hs]
      exact (if_neg hwritten).trans (if_pos hqueue)
    · rw [show s.flushTo request = s from (if_neg hwritten).trans (if_neg hqueue)]
      exact (if_neg hwritten).trans (if_neg hqueue)

theorem withInput_awaitReply (s : Session) (cookie : ℕ) :
    (s.withInput currentReply replies events pending log).awaitReply cookie =
      (s.awaitReply cookie).withInput currentReply replies events pending log := by
  by_cases h : s.conn.out.returnSocket.isSome
  · rw [Session.awaitReply, Session.awaitReply, if_pos h]
    exact if_pos h
  · rw [Session.awaitReply, Session.awaitReply, if_neg h, ← withInput_flushTo]
    exact if_neg h

/-- A request gets the same number and the same entries. -/
theorem withInput_sendRequest (hrequest : s.conn.out.request = BitVec.ofNat 64 s.requests.length)
    (call : SendCall) (req : PreparedRequest) (fails : ℕ → Bool) :
    (s.withInput currentReply replies events pending log).sendRequest call req fails =
      (s.sendRequest call req fails).withInput currentReply replies events
        (pending ++ (entriesOf (s.requests.length + 1) (newRequests s.conn.out.request
          (s.conn.numberRequest req).2 call req fails)).map pendingOf) log := by
  have hcount : ((s.withInput currentReply replies events pending log).conn.numberRequest req).2 =
      (s.conn.numberRequest req).2 :=
    @numberRequest_snd_congr _ _ (s.withInput currentReply replies events pending log).conn s.conn
      rfl rfl req
  rw [Session.sendRequest, Session.sendRequest, ← withInput_writeBlock, hcount,
    pendingOf_entriesOf hrequest, number_eq, number_eq, numberRequest_fst, numberRequest_fst,
    hcount, ← List.append_assoc]
  rfl

end withInput

/-- A step that numbers requests, and does not look at what has been read. -/
structure Parallel (s : Session) (a : Action) (u : Session) (new : List Request) : Prop where
  requests : u.requests = s.requests ++ new
  log : u.log = s.log
  owned : ∀ q ∈ new, q.workaround ≠ .externalSocketOwner
  inp : ∃ expected, u.conn.inp = { s.conn.inp with
    requestExpected := expected
    pendingReplies := s.conn.inp.pendingReplies ++
      (entriesOf (s.requests.length + 1) new).map pendingOf }
  other : ∀ currentReply replies events pending log,
    (s.withInput currentReply replies events pending log).step a =
      some (u.withInput currentReply replies events
        (pending ++ (entriesOf (s.requests.length + 1) new).map pendingOf) log)

theorem Parallel.of_same {a : Action} (hrequests : u.requests = s.requests) (hlog : u.log = s.log)
    (hinp : u.conn.inp = s.conn.inp)
    (hother : ∀ currentReply replies events pending log,
      (s.withInput currentReply replies events pending log).step a =
        some (u.withInput currentReply replies events pending log)) : s.Parallel a u [] :=
  ⟨hrequests.trans (List.append_nil _).symm, hlog, nofun,
    ⟨s.conn.inp.requestExpected, by rw [hinp]; simp [entriesOf]⟩, by simpa [entriesOf] using hother⟩

/-- **Quiet steps** do the same in both runs. -/
theorem quiet_step {a : Action} (hrequest : s.conn.out.request = BitVec.ofNat 64 s.requests.length)
    (hquiet : a.isQuiet = true) (hstep : s.step a = some u) : ∃ new, s.Parallel a u new := by
  cases a with
  | send call fails =>
    simp only [Session.step] at hstep
    split at hstep
    · cases hstep
    · next hcond =>
      simp only [Bool.or_eq_true, not_or, Bool.not_eq_true, Option.isSome_eq_false_iff,
        Option.isNone_iff_eq_none] at hcond
      obtain ⟨herr, hfree⟩ := hcond
      split at hstep
      · next req hreq =>
        cases hstep
        obtain ⟨socket, queue, queueLen, written, hout⟩ := sendRequest_eq s call req fails
        refine ⟨newRequests s.conn.out.request (s.conn.numberRequest req).2 call req fails,
          requests_sendRequest s call req fails, by rw [hout, number_eq]; rfl, ?_,
          ⟨(s.conn.numberRequest req).1.inp.requestExpected, ?_⟩, ?_⟩
        · intro q hq
          obtain ⟨i, hi⟩ := List.getElem?_of_mem hq
          exact workaround_of_newRequests (workaround_of_prepare hreq) hi
        · rw [hout, number_eq, pendingOf_entriesOf hrequest, ← List.append_assoc]
          show (s.conn.numberRequest req).1.inp = _
          rw [numberRequest_fst]
        · intro currentReply replies events pending log
          rw [← withInput_sendRequest _ _ _ _ _ hrequest]
          exact @step_send (s.withInput currentReply replies events pending log) call req herr hfree
            hreq fails
      · next hnone =>
        cases hstep
        exact ⟨[], .of_same rfl rfl rfl fun currentReply replies events pending log =>
          @step_refuse (s.withInput currentReply replies events pending log) call herr hfree hnone
            fails⟩
  | flush =>
    simp only [Session.step] at hstep
    split at hstep
    · cases hstep
    · next herr =>
      cases hstep
      obtain ⟨socket, queue, queueLen, written, hout⟩ := flushTo_eq s s.conn.out.request
      refine ⟨[], .of_same (by rw [hout]; rfl) (by rw [hout]; rfl) (by rw [hout]; rfl)
        fun currentReply replies events pending log => ?_⟩
      rw [← withInput_flushTo]
      exact if_neg herr
  | awaitReply cookie =>
    simp only [Session.step] at hstep
    split at hstep
    · cases hstep
    · next herr =>
      cases hstep
      obtain ⟨socket, queue, queueLen, written, hout⟩ := awaitReply_eq s cookie
      refine ⟨[], .of_same (by rw [hout]; rfl) (by rw [hout]; rfl) (by rw [hout]; rfl)
        fun currentReply replies events pending log => ?_⟩
      rw [← withInput_awaitReply]
      exact if_neg herr
  | handle =>
    simp only [Session.step] at hstep
    split at hstep
    · next hcond =>
      cases hstep
      exact ⟨[], .of_same rfl rfl rfl fun currentReply replies events pending log => if_pos hcond⟩
    · cases hstep
  | emit responseType sequence bytes =>
    simp only [Session.step] at hstep
    split at hstep
    · next hcond =>
      cases hstep
      exact ⟨[], .of_same rfl rfl rfl fun currentReply replies events pending log => if_pos hcond⟩
    · cases hstep
  | takeSocket => cases hquiet
  | writev => cases hquiet
  | getSocketBack => cases hquiet
  | poll => cases hquiet
  | getEvent => cases hquiet
  | discard => cases hquiet
  | read => cases hquiet

end Session

end Xcb
