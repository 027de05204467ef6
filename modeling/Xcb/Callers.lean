import Xcb.Delivery
import Xcb.Interleaving

/-!
# What the callers of several threads get

The guarantees of a session hold for threads that share a connection, because threads do whole
calls. The numbers of the packets stay true however the threads interleave; each packet is handed
out once, to a caller that asked for it; and a caller who is told that there is no reply has not
missed one.

## Main definitions

* `Network.handed` — what all callers have been given, in order
* `Network.Routed`, `Network.Collects` — where the packets have gone

## Main results

* `requestRead_of_reach` — the number read last is the number stamped last
* `routes_of_reach` — each packet is where its own request says
* `collects_of_reach` — and each caller gets the replies it waits for
-/

namespace Xcb

variable {τ : Type}

namespace Session

variable {s t : Session} {k : ℕ}

/-! ### A caller who was told that there is no reply -/

/-- What a step adds to the log. -/
theorem log_step {a : Action} (h : s.step a = some t) :
    t.log = s.log ∨ ∃ observation, t.log = s.log ++ [observation] ∧
      ∀ cookie result, observation = .poll cookie result →
        a = .poll cookie ∧ result = (s.conn.inp.pollForReply (BitVec.ofNat 32 cookie)).1 := by
  cases step_cases h with
  | send =>
    rw [number_eq]
    exact .inl rfl
  | @poll cookie =>
    refine .inr ⟨_, rfl, fun cookie' result hpoll => ?_⟩
    cases hpoll
    exact ⟨rfl, rfl⟩
  | getEvent => exact .inr ⟨_, rfl, fun _ _ hpoll => by cases hpoll⟩
  | read => exact .inr ⟨_, rfl, fun _ _ hpoll => by cases hpoll⟩
  | _ => exact .inl rfl

/-- What was handed back stays handed back. -/
theorem delivered_grow {a : Action} (h : s.step a = some t) :
    s.delivered k <+: t.delivered k := by
  rcases log_step h with hlog | ⟨observation, hlog, -⟩
  · rw [delivered, delivered, hlog]
  · rw [delivered, delivered, hlog, List.filterMap_append]
    exact List.prefix_append _ _

/-- Everything for request `k` has been handed back, and nothing else will be read for it. -/
structure Exhausted (s : Session) (k : ℕ) : Prop where
  settled : s.Settled k
  all : s.delivered k = s.arrived k

theorem exhausted_of_prefix (hdelivering : t.Delivering k)
    (hgrew : s.arrived k <+: t.delivered k) (harrived : t.arrived k = s.arrived k)
    (hsettled : t.Settled k) : t.Exhausted k := by
  obtain ⟨rest, hrest⟩ := hgrew
  have hexact := hdelivering.exact
  rw [harrived, ← hrest, List.append_assoc, List.append_right_eq_self,
    List.append_eq_nil_iff] at hexact
  refine ⟨hsettled, ?_⟩
  rw [harrived, ← hrest, hexact.1, List.append_nil]

/-- **A caller who is told that there is no reply** has got all of them. -/
theorem exhausted_of_reach {size : ℕ} {maximum : BitVec 16} (hzero : BitVec.ofNat 32 k ≠ 0)
    (hk : k < 2 ^ 31)
    (h : Transition.Reach Session.step (Collecting k) (Session.init size maximum) s)
    (hlt : s.requests.length < 2 ^ 31) (hnone : Observation.poll k (some none) ∈ s.log) :
    s.Exhausted k := by
  induction h with
  | refl => cases hnone
  | @tail t u a hreach hok hstep ih =>
    have hlen := length_requests_le hstep
    obtain ⟨hdelivering, rs, htab⟩ := delivering_of_reach hreach (by omega)
    obtain ⟨hdelivering', -⟩ := delivering_of_reach (hreach.tail hok hstep) (by omega)
    have hgrow : t.delivered k <+: u.delivered k := delivered_grow hstep
    -- once nothing else can come, the step changes nothing
    have hkeep : t.Exhausted k → u.Exhausted k := by
      intro hexhausted
      obtain ⟨hsettled, harrived⟩ := settled_step htab.served hexhausted.settled hstep
      exact exhausted_of_prefix hdelivering' (hexhausted.all ▸ hgrow) harrived hsettled
    rcases log_step hstep with hlog | ⟨observation, hlog, hpoll⟩
    · rw [hlog] at hnone
      exact hkeep (ih (by omega) hnone)
    · rw [hlog, List.mem_append, List.mem_singleton] at hnone
      rcases hnone with hold | rfl
      · exact hkeep (ih (by omega) hold)
      · obtain ⟨rfl, hfound⟩ := hpoll k _ rfl
        have hpollable := hok.pollable k rfl rfl
        have hread := htab.toNat_requestRead (by omega)
        have hlow := hpollable.lt_read
        have hhigh := hpollable.read_lt
        rw [hread] at hlow hhigh
        have hhandled := htab.served.lastRead_le_handled.trans htab.served.handled_le
        have hcomparable : t.Comparable k := by
          rw [Comparable, htab.requestRead, low32_ofNat]
          exact Serial.fits_of_lt (by norm_num) hk (by omega)
        obtain ⟨hempty, hsettled⟩ := finished_of_poll hdelivering.filed htab.toStamped hlow hhigh
          hcomparable hzero hfound.symm
        have hall := hdelivering.exact
        rw [hempty, List.append_nil] at hall
        exact hkeep ⟨hsettled, hall⟩

/-! ### Short runs

With fewer than `2 ^ 31` requests every comparison of two numbers is right. -/

/-- Whole calls without discards collect what waits for request `k` in time. -/
theorem collecting_of_length_lt {size : ℕ} {maximum : BitVec 16}
    (h : Transition.Reach Session.step (WholeCall False) (Session.init size maximum) s)
    (hlt : s.requests.length < 2 ^ 31) (hk : k < 2 ^ 31) :
    Transition.Reach Session.step (Collecting k) (Session.init size maximum) s := by
  have hflight : Transition.Reach Session.step
      (fun u a => InFlight u a ∧ u.requests.length < 2 ^ 31 ∧ WholeCall False u a) _ s :=
    reach_of_length_le h fun u a hle hok =>
      ⟨⟨hok.handoff, fun _ => by omega⟩, by omega, hok⟩
  have hsync := hflight.strengthen (P := fun u => ∃ expected, u.Synchronous expected)
    (fun _ _ _ h hok hstep => synchronous_step h hok.1 hstep) ⟨0, synchronous_init size maximum⟩
  refine hsync.mono fun u a ⟨⟨_, hlength, hwhole⟩, expected, hu⟩ => ⟨?_, hwhole.handoff, ?_, ?_⟩
  · exact Bool.eq_false_iff.mpr fun h => hwhole.discard h
  · intro _
    unfold Close
    omega
  · intro cookie hpoll hsame
    have hcookie := hwhole.cookie cookie hpoll
    have heq : cookie = k := (Serial.ofNat_inj (by omega) (by omega)).mp hsame
    have hread := hu.toStamped.toNat_requestRead (by omega)
    have hle := hu.read_le.trans hu.expected_le
    refine ⟨?_, ?_, fun b _ => ?_⟩ <;> rw [hread] <;> omega

end Session

/-! ### Several threads -/

/-- The event, if it is one. -/
def Handed.event? : Handed → Option (Buffer Stamp)
  | .event e => some e
  | .reply _ _ => none

/-- The reply or error, if there is one. -/
def Handed.reply? : Handed → Option (Buffer Stamp)
  | .reply _ result => result
  | .event _ => none

/-- The packet for a caller that waits for request `k`. -/
def Handed.packet? (k : ℕ) : Handed → Option (Packet Stamp)
  | .reply request result => if request = BitVec.ofNat 32 k then result.map Buffer.packet else none
  | .event _ => none

theorem Observation.event?_eq (o : Observation) : o.event? = o.handed.bind Handed.event? := by
  cases o with
  | read p => rfl
  | poll cookie result => cases result <;> rfl
  | event result => cases result <;> rfl

theorem Observation.reply?_eq (o : Observation) : o.reply? = o.handed.bind Handed.reply? := by
  cases o with
  | read p => rfl
  | poll cookie result => cases result <;> rfl
  | event result => cases result <;> rfl

namespace Network

variable {n : Network τ} {size k : ℕ} {maximum : BitVec 16} {discards : Prop}

/-- What all callers have been given, in order. -/
def handed (n : Network τ) : List Handed := n.system.log.filterMap Entry.handed

/-- The events given to callers, and those that wait. -/
def events (n : Network τ) : List (Packet Stamp) :=
  (n.handed.filterMap Handed.event? ++ n.system.conn.inp.events).map Buffer.packet

/-- The replies and errors given to callers, and those that wait. -/
def replies (n : Network τ) : List (Packet Stamp) :=
  (n.handed.filterMap Handed.reply? ++ n.system.conn.inp.stored).map Buffer.packet

/-- The packets given to callers that waited or polled for request `k`. -/
def delivered (n : Network τ) (k : ℕ) : List (Packet Stamp) := n.handed.filterMap (Handed.packet? k)

/-- The packets read for request `k` that are kept for its callers, by its own flags. -/
def arrived (n : Network τ) (k : ℕ) : List (Packet Stamp) := n.view.arrived k

/-- Every packet that was read is where it should be by the flags of its own request; events are in
the order they arrived in. -/
structure Routed (n : Network τ) : Prop where
  events : n.events = n.outside.reads.filter fun p => n.view.routeOf p = .eventQueue
  replies : n.replies.Perm (n.outside.reads.filter fun p => n.view.routeOf p = .replyStore)

/-- Callers get what arrives for the request they wait for, and miss nothing. -/
structure Collects (n : Network τ) (k : ℕ) : Prop where
  /-- What they got and what waits for them is what arrived, in this order. -/
  exact : n.delivered k ++ n.system.conn.inp.waiting k = n.arrived k
  /-- When one is told that there is none, all were given out, and the server has gone on. -/
  finished : Handed.reply (BitVec.ofNat 32 k) none ∈ n.handed →
    n.delivered k = n.arrived k ∧ n.view.Settled k

/-! #### What a session says about the threads -/

section serialised

variable {s : Session}

theorem Serialised.reads (h : n.Serialised s) : s.reads = n.outside.reads :=
  congrArg Outside.reads h.outside

theorem Serialised.routeOf (h : n.Serialised s) : s.routeOf = n.view.routeOf := by
  have hrequests : s.requests = n.view.requests := congrArg Outside.requests h.outside
  funext p
  rw [Session.routeOf, Session.flagsOf, Session.request?, hrequests]
  rfl

theorem reads_view (n : Network τ) : n.view.reads = n.outside.reads :=
  congrArg Outside.reads n.outside_view

theorem Serialised.arrived (h : n.Serialised s) (k : ℕ) : s.arrived k = n.arrived k := by
  rw [Session.arrived, h.reads, h.routeOf, Network.arrived, Session.arrived, n.reads_view]

theorem Serialised.stored (h : n.Serialised s) : s.conn.inp.stored = n.system.conn.inp.stored := by
  rw [h.inp]
  rfl

theorem Serialised.routed (h : n.Serialised s) (hs : s.Routed) : n.Routed := by
  have hevents : s.log.filterMap Observation.event? = n.handed.filterMap Handed.event? := by
    rw [Network.handed, ← h.handed, List.filterMap_filterMap]
    exact congrArg (List.filterMap · s.log) (funext Observation.event?_eq)
  have hreplies : s.log.filterMap Observation.reply? = n.handed.filterMap Handed.reply? := by
    rw [Network.handed, ← h.handed, List.filterMap_filterMap]
    exact congrArg (List.filterMap · s.log) (funext Observation.reply?_eq)
  refine ⟨?_, ?_⟩
  · have heq := hs.events
    rw [Session.eventsOf, hevents, h.inp, h.reads, h.routeOf] at heq
    exact heq
  · have hperm := hs.replies
    rw [Session.repliesOf, hreplies, h.stored, h.reads, h.routeOf] at hperm
    exact hperm

/-- A session of whole calls polls with 32 bits. -/
theorem cookie_lt_of_mem_log
    (h : Transition.Reach Session.step (WholeCall discards) (Session.init size maximum) s)
    {cookie : ℕ} {result : Option (Option (Buffer Stamp))}
    (hmem : Observation.poll cookie result ∈ s.log) :
    cookie < 2 ^ 32 := by
  refine h.invariant (P := fun s => ∀ cookie result, Observation.poll cookie result ∈ s.log →
    cookie < 2 ^ 32) (fun t a u hold hok hstep cookie result hmem => ?_)
    (fun _ _ hmem => by cases hmem) cookie result hmem
  rcases Session.log_step hstep with hlog | ⟨observation, hlog, hpoll⟩
  · exact hold cookie result (hlog ▸ hmem)
  · rw [hlog, List.mem_append, List.mem_singleton] at hmem
    rcases hmem with hmem | rfl
    · exact hold cookie result hmem
    · exact hok.cookie cookie (hpoll cookie result rfl).1

theorem Serialised.delivered (h : n.Serialised s) (hk : k < 2 ^ 32)
    (hreach : Transition.Reach Session.step (WholeCall discards) (Session.init size maximum) s) :
    s.delivered k = n.delivered k := by
  rw [Network.delivered, Network.handed, ← h.handed, List.filterMap_filterMap, Session.delivered]
  refine List.filterMap_congr fun o ho => ?_
  rcases o with _ | ⟨cookie, result⟩ | result
  · rfl
  · have hcookie := cookie_lt_of_mem_log hreach ho
    have hsame : BitVec.ofNat 32 cookie = BitVec.ofNat 32 k ↔ cookie = k :=
      Serial.ofNat_inj (by omega) (by omega)
    cases result with
    | none => simp [Observation.handed]
    | some reply => simp [Observation.handed, Handed.packet?, hsame]
  · cases result <;> rfl

theorem Serialised.collects (h : n.Serialised s) (hpos : 0 < k) (hk : k < 2 ^ 31)
    (hreach : Transition.Reach Session.step (WholeCall False) (Session.init size maximum) s)
    (hlt : s.requests.length < 2 ^ 31) : n.Collects k := by
  have hcollecting := Session.collecting_of_length_lt hreach hlt hk
  have hdelivered : s.delivered k = n.delivered k := h.delivered (by omega) hreach
  have hzero : BitVec.ofNat 32 k ≠ BitVec.ofNat 32 0 := fun hzero => by
    have := (Serial.ofNat_inj (by omega) (by omega)).mp hzero
    omega
  refine ⟨?_, fun hnone => ?_⟩
  · have hexact := (Session.delivering_of_reach hcollecting (by omega)).1.exact
    rw [hdelivered, XcbIn.waiting, h.stored, h.arrived] at hexact
    exact hexact
  · rw [Network.handed, ← h.handed, List.mem_filterMap] at hnone
    obtain ⟨o, ho, hsame⟩ := hnone
    have hpoll : Observation.poll k (some none) ∈ s.log := by
      rcases o with _ | ⟨cookie, result⟩ | result
      · cases hsame
      · cases result with
        | none => cases hsame
        | some reply =>
          simp only [Observation.handed, Option.map_some, Option.some.injEq, Handed.reply.injEq]
            at hsame
          have hcookie := cookie_lt_of_mem_log hreach ho
          have hk' : cookie = k := (Serial.ofNat_inj (by omega) (by omega)).mp hsame.1
          rw [hk', hsame.2] at ho
          exact ho
      · cases result <;> cases hsame
    obtain ⟨hsettled, hall⟩ := Session.exhausted_of_reach hzero hk hcollecting hlt hpoll
    refine ⟨by rw [← hdelivered, hall, h.arrived], ?_⟩
    rw [Session.Settled, Session.errorRead, Session.lastRead, n.reads_view, ← h.reads]
    exact hsettled

end serialised

variable [DecidableEq τ] [Fintype τ]

/-! #### The results -/

/-- **Sequence numbers stay true**, however the threads interleave. -/
theorem requestRead_of_reach (hsize : size < 2 ^ 31)
    (h : Transition.Reach Network.step (Plain discards) (Network.init size maximum) n)
    (hle : n.system.requests.length ≤ 2 ^ 63) (halive : n.system.conn.hasError = false) :
    n.system.conn.inp.requestRead.toNat = (stamps n.outside.reads).getLastD 0 := by
  obtain ⟨s, hreach, hconforms⟩ := exists_conforms hsize h (by omega)
  have hs := hconforms.serialised halive
  have hlength : s.requests.length = n.system.requests.length := by
    rw [← hs.requests, List.length_map]
  obtain ⟨expected, hsync⟩ := Session.synchronous_of_reach
    (Session.inFlight_of_length_le (hreach.mono fun _ _ hok => hok.handoff) (by omega))
  have hread := hsync.toStamped.toNat_requestRead (by omega)
  rw [hs.inp, Session.lastRead, hs.reads] at hread
  exact hread

/-- The error of one thread's request, read by another thread. -/
theorem requestRead_oneError : ∃ n : Network (Fin 2), n.outside.reads = [firstError] ∧
    n.system.conn.inp.requestRead.toNat = (stamps n.outside.reads).getLastD 0 := by
  obtain ⟨n, hrun, hlength, halive, hreads, -⟩ := exists_oneError
  have hreach : Transition.Reach _ (Plain False) _ n := .of_foldlM plain_of_mem_oneError hrun
  exact ⟨n, hreads, requestRead_of_reach (by norm_num) hreach (by omega) halive⟩

/-- **Each packet goes where its own request says**, and is handed out at most once. -/
theorem routes_of_reach (hsize : size < 2 ^ 31)
    (h : Transition.Reach Network.step (Plain False) (Network.init size maximum) n)
    (hlt : n.system.requests.length + 1 < 2 ^ 63) (halive : n.system.conn.hasError = false) :
    n.Routed := by
  obtain ⟨s, hreach, hconforms⟩ := exists_conforms hsize h (by omega)
  have hs := hconforms.serialised halive
  have hlength : s.requests.length = n.system.requests.length := by
    rw [← hs.requests, List.length_map]
  have hclose : Transition.Reach Session.step (fun u a => a.isDiscard = false ∧
      a.isHandoff = false ∧ (a = .read → u.Close)) (Session.init size maximum) s :=
    Session.reach_of_length_le hreach fun u a hle hok =>
      ⟨Bool.eq_false_iff.mpr fun h => hok.discard h, hok.handoff, fun _ => by
        unfold Session.Close
        omega⟩
  have hattributed := (Session.attributed_of_close hclose (fun _ _ hok => hok) (by omega)).1
  have hboth : s.Routed ∧ ∃ rs, s.Tabled rs :=
    hattributed.invariant (P := fun s => s.Routed ∧ ∃ rs, s.Tabled rs)
      (fun _ _ _ ⟨hrouted, rs, htab⟩ hok hstep =>
        ⟨Session.routed_step hrouted htab hok.1 hstep, Session.tabled_step ⟨rs, htab⟩ hok.1 hstep⟩)
      ⟨Session.routed_init size maximum, [], Session.tabled_init size maximum⟩
  exact hs.routed hboth.1

/-- It is an event. -/
theorem routed_oneError : ∃ n : Network (Fin 2), n.outside.reads = [firstError] ∧ n.Routed := by
  obtain ⟨n, hrun, hlength, halive, hreads, -⟩ := exists_oneError
  have hreach : Transition.Reach _ (Plain False) _ n := .of_foldlM plain_of_mem_oneError hrun
  exact ⟨n, hreads, routes_of_reach (by norm_num) hreach (by omega) halive⟩

/-- **Callers get what they wait for**: each caller of `xcb_wait_for_reply` and of
`xcb_poll_for_reply`, in whatever thread, gets the next reply to its request, and is told that there
is none only when all have been given out. -/
theorem collects_of_reach (hsize : size < 2 ^ 31) (hpos : 0 < k) (hk : k < 2 ^ 31)
    (h : Transition.Reach Network.step (Plain False) (Network.init size maximum) n)
    (hlt : n.system.requests.length < 2 ^ 31) (halive : n.system.conn.hasError = false) :
    n.Collects k := by
  obtain ⟨s, hreach, hconforms⟩ := exists_conforms hsize h (by omega)
  have hs := hconforms.serialised halive
  have hlength : s.requests.length = n.system.requests.length := by
    rw [← hs.requests, List.length_map]
  exact hs.collects hpos hk hreach (by omega)

/-- A reply to the first request. -/
def firstReply : Packet Stamp := ⟨xcbReply, 1, ⟨1, []⟩⟩

/-- Thread 0 sends a request; thread 1 waits for the reply, which makes it write the request. -/
def oneReply : List (Network.Action (Fin 2)) :=
  [.ofThread (.call 0 (.send (wordCall false))), .ofThread (.run 0 (answered [])),
    .ofThread (.call 1 (.waitForReply 1)), .ofThread (.run 1 (answered [])),
    .ofThread (.run 1 (answered [])), .handle, .emit xcbReply 1 [],
    .ofThread (.run 1 (answered [firstReply]))]

theorem collects_oneReply : ∃ n : Network (Fin 2),
    n.handed = [.reply 1 (some ⟨firstReply, none⟩)] ∧ n.Collects 1 := by
  have hrun : (oneReply.foldlM Network.step (Network.init 16384 65535)).map (fun n =>
      (n.system.requests.length, n.system.conn.hasError, n.handed)) =
      some (1, false, [.reply 1 (some ⟨firstReply, none⟩)]) := by
    decide +kernel
  obtain ⟨n, hn, heq⟩ := Option.map_eq_some_iff.mp hrun
  simp only [Prod.mk.injEq] at heq
  obtain ⟨hlength, halive, hhanded⟩ := heq
  have hok : ∀ m : Network (Fin 2), ∀ a ∈ oneReply, Plain False m a := by
    intro m a ha
    simp only [oneReply, List.mem_cons, List.not_mem_nil, or_false] at ha
    rcases ha with rfl | rfl | rfl | rfl | rfl | rfl | rfl | rfl <;>
      first
      | exact ⟨System.ordinary_wordCall False false, fun h => absurd h Bool.false_ne_true⟩
      | exact trivial
      | exact ⟨trivial, fun h => absurd h Bool.false_ne_true⟩
  have hreach : Transition.Reach _ (Plain False) _ _ := .of_foldlM hok hn
  exact ⟨n, hhanded,
    collects_of_reach (by norm_num) (by norm_num) (by norm_num) hreach (by omega) halive⟩

end Network

end Xcb
