import Mathlib.Algebra.Order.BigOperators.Group.List
import Xcb.Links

/-!
# The tails address the last links

Each call does to the links what its namesake does to the lists of `XcbIn`, and leaves each tail at
the place of the null pointer that ends the list. So nothing is lost: what is in memory is in a
list.

## Main definitions

* `queueOf` — what a map holds for one key
* `Shape` — the nodes of all lists, with their addresses
* `LinkedIn.Represents` — memory holds these nodes and nothing else, and they are the lists of a
  `XcbIn`
* `LinkedIn.WellLinked` — the tails are where the next node belongs, and the lists hold all nodes

## Main results

* `mapPut_queueOf`, `mapRemove_queueOf` — the map is a queue for each key
* `LinkedIn.Represents.perform` — a call does what it does to lists, and it ends
* `LinkedIn.run_refines` — so do calls in a row
* `LinkedIn.wellLinked_run` — after any calls the tails address the last links, and nothing is lost
-/

namespace Xcb

open Linked

variable {A α δ β τ : Type}

/-! ### The map -/

/-- What a map holds for one key, in the order in which it was put there. -/
def queueOf (key : BitVec 32) (nodes : List (BitVec 32 × δ)) : List δ :=
  (nodes.filter fun node => node.1 == key).map Prod.snd

theorem queueOf_append (key : BitVec 32) (nodes nodes' : List (BitVec 32 × δ)) :
    queueOf key (nodes ++ nodes') = queueOf key nodes ++ queueOf key nodes' := by
  rw [queueOf, List.filter_append, List.map_append]
  rfl

theorem queueOf_cons (key : BitVec 32) (node : BitVec 32 × δ) (nodes : List (BitVec 32 × δ)) :
    queueOf key (node :: nodes) =
      if key = node.1 then node.2 :: queueOf key nodes else queueOf key nodes := by
  rw [queueOf, List.filter_cons]
  by_cases hkey : key = node.1
  · rw [if_pos (beq_iff_eq.mpr hkey.symm), if_pos hkey]
    rfl
  · rw [if_neg fun hbeq => hkey (beq_iff_eq.mp hbeq).symm, if_neg hkey]
    rfl

theorem queueOf_eq_nil {key : BitVec 32} {nodes : List (BitVec 32 × δ)}
    (h : ∀ node ∈ nodes, node.1 ≠ key) : queueOf key nodes = [] := by
  rw [queueOf, List.filter_eq_nil_iff.mpr fun node hnode => by simpa using h node hnode]
  rfl

theorem XcbMap.remove_of_append {key : BitVec 32} {data : δ} {before after : List (BitVec 32 × δ)}
    (h : ∀ node ∈ before, node.1 ≠ key) :
    (XcbMap.mk (before ++ (key, data) :: after)).remove key = (some data, ⟨before ++ after⟩) := by
  induction before with
  | nil => exact XcbMap.remove_cons_of_eq
  | cons node before ih =>
    obtain ⟨k, found⟩ := node
    rw [List.cons_append, XcbMap.remove_cons_of_ne (h _ List.mem_cons_self),
      ih fun node hnode => h node (List.mem_cons_of_mem _ hnode)]
    rfl

theorem XcbMap.remove_of_forall_ne {key : BitVec 32} {list : XcbMap δ}
    (h : ∀ node ∈ list.nodes, node.1 ≠ key) : list.remove key = (none, list) := by
  rcases list.remove_cases key with ⟨data, before, after, hnodes, -⟩ | ⟨-, hremove⟩
  · exact absurd rfl (h (key, data) (by simp [hnodes]))
  · exact hremove

section map

variable [DecidableEq A] {heap : Heap A (BitVec 32 × δ)} {list : Tailed A}
  {nodes : List (A × BitVec 32 × δ)}

theorem mapPut_meets (h : Stores heap list nodes []) (cur : A) (key : BitVec 32) (data : δ) :
    Meets (heap cur = none) (mapPut heap list cur key data) fun r =>
      Stores r.1 r.2 (nodes ++ [(cur, key, data)]) [] :=
  h.append cur (key, data)

/-- The first node with the key is removed, if there is one. -/
theorem mapRemove_meets (h : Stores heap list nodes []) (fuel : ℕ) (key : BitVec 32) :
    Meets (nodes.length < fuel) (mapRemove fuel heap list key) fun r =>
      (∃ before cur data after, nodes = before ++ (cur, key, data) :: after ∧
          (∀ node ∈ before, node.2.1 ≠ key) ∧ r.1 = some data ∧
            Stores r.2.1 r.2.2 (before ++ after) []) ∨
        (∀ node ∈ nodes, node.2.1 ≠ key) ∧ r = (none, heap, list) := by
  refine (h.seek (fun node => node.1 == key) fuel).bind ?_
  rintro _ (⟨before, cur, ⟨k, data⟩, after, rfl, hstop, hbefore, rfl⟩ | ⟨hnone, rfl⟩)
  · obtain rfl : k = key := beq_iff_eq.mp hstop
    obtain ⟨hload, heap', list', hunlink, hstores⟩ := h.unlink
    refine .of_eq (r := (some data, heap', list')) ?_ (.inl ⟨before, cur, data, after, rfl, ?_, rfl,
      hstores⟩)
    · simp [hload, hunlink]
    · intro node hnode
      simpa using hbefore node hnode
  · refine .of_eq (r := (none, heap, list)) ?_ (.inr ⟨?_, rfl⟩)
    · simp [h.holds.segment.load_lastPlace]
    · intro node hnode
      simpa using hnone node hnode

/-- **Putting** data into the map appends it to the queue of its key. -/
theorem mapPut_queueOf (h : Stores heap list nodes []) (cur : A) (key : BitVec 32) (data : δ) :
    Meets (heap cur = none) (mapPut heap list cur key data) fun r =>
      ∃ nodes', Stores r.1 r.2 nodes' [] ∧ ∀ k, queueOf k (contents nodes') =
        if k = key then queueOf k (contents nodes) ++ [data] else queueOf k (contents nodes) := by
  refine (mapPut_meets h cur key data).imp id fun r hr => ⟨_, hr, fun k => ?_⟩
  rw [contents, List.map_append, queueOf_append]
  show queueOf k (contents nodes) ++ queueOf k ((key, data) :: []) = _
  rw [queueOf_cons]
  split
  · rfl
  · exact List.append_nil _

/-- **Removing** takes the first of the queue of the key. -/
theorem mapRemove_queueOf (h : Stores heap list nodes []) (fuel : ℕ) (key : BitVec 32) :
    Meets (nodes.length < fuel) (mapRemove fuel heap list key) fun r =>
      r.1 = (queueOf key (contents nodes)).head? ∧
        ∃ nodes', Stores r.2.1 r.2.2 nodes' [] ∧ ∀ k, queueOf k (contents nodes') =
          if k = key then (queueOf k (contents nodes)).tail else queueOf k (contents nodes) := by
  refine (mapRemove_meets h fuel key).imp id ?_
  rintro r (⟨before, cur, data, after, rfl, hbefore, hfound, hstores⟩ | ⟨hnone, rfl⟩)
  · have hqueue : queueOf key (contents before) = [] := by
      refine queueOf_eq_nil fun node hnode => ?_
      obtain ⟨node, hmem, rfl⟩ := List.mem_map.mp hnode
      exact hbefore node hmem
    have hnodes : contents (before ++ (cur, key, data) :: after) =
        contents before ++ (key, data) :: contents after := List.map_append
    refine ⟨?_, before ++ after, hstores, fun k => ?_⟩
    · rw [hfound, hnodes, queueOf_append, hqueue, queueOf_cons, if_pos rfl]
      rfl
    · rw [hnodes, contents, List.map_append, queueOf_append, queueOf_append, queueOf_cons]
      by_cases hk : k = key
      · rw [if_pos hk, if_pos hk, hk]
        show queueOf key (contents before) ++ _ = (queueOf key (contents before) ++ _).tail
        rw [hqueue]
        rfl
      · rw [if_neg hk, if_neg hk]
        rfl
  · have hqueue : queueOf key (contents nodes) = [] := by
      refine queueOf_eq_nil fun node hnode => ?_
      obtain ⟨node, hmem, rfl⟩ := List.mem_map.mp hnode
      exact hnone node hmem
    refine ⟨by rw [hqueue]; rfl, nodes, h, fun k => ?_⟩
    split
    · next hk => rw [hk, hqueue]; rfl
    · rfl

/-- The map is a queue for each key. -/
structure QueuePerKey (heap : Heap A (BitVec 32 × δ)) (list : Tailed A)
    (nodes : List (A × BitVec 32 × δ)) : Prop where
  put : ∀ cur key data, Meets (heap cur = none) (mapPut heap list cur key data) fun r =>
    ∃ nodes', Stores r.1 r.2 nodes' [] ∧ ∀ k, queueOf k (contents nodes') =
      if k = key then queueOf k (contents nodes) ++ [data] else queueOf k (contents nodes)
  remove : ∀ fuel key, Meets (nodes.length < fuel) (mapRemove fuel heap list key) fun r =>
    r.1 = (queueOf key (contents nodes)).head? ∧
      ∃ nodes', Stores r.2.1 r.2.2 nodes' [] ∧ ∀ k, queueOf k (contents nodes') =
        if k = key then (queueOf k (contents nodes)).tail else queueOf k (contents nodes)

theorem queuePerKey (h : Stores heap list nodes []) : QueuePerKey heap list nodes where
  put := mapPut_queueOf h
  remove := mapRemove_queueOf h

end map

/-! ### Numbers -/

section advanceRead

variable {c : XcbIn τ β} {read : BitVec 64}

theorem XcbIn.advanceRead_of_eq (h : read = c.requestRead) :
    c.advanceRead read = { c with
      requestRead := read
      requestExpected := if sequenceCompare read c.requestExpected > 0 then read
        else c.requestExpected } := by
  simp [XcbIn.advanceRead, h]

theorem XcbIn.advanceRead_of_ne (h : read ≠ c.requestRead) :
    c.advanceRead read = { c with
      requestRead := read
      requestExpected := if sequenceCompare read c.requestExpected > 0 then read
        else c.requestExpected
      replies := if c.currentReply = [] then c.replies
        else c.replies.put (low32 c.requestRead) c.currentReply
      currentReply := []
      requestCompleted := read - 1 } := by
  by_cases hempty : c.currentReply = []
  · simp [XcbIn.advanceRead, h, hempty]
  · simp [XcbIn.advanceRead, h, hempty]

end advanceRead

/-! ### What is in memory -/

/-- A node of the map of replies, and the list that belongs to it. -/
structure FiledReplies (A β : Type) where
  node : A
  key : BitVec 32
  data : Option A
  entries : List (A × Buffer β)

/-- The nodes of all lists, with their addresses. -/
structure Shape (A β : Type) where
  currentReply : List (A × Buffer β)
  filed : List (FiledReplies A β)
  events : List (A × Buffer β)
  pendingReplies : List (A × PendingReply)

/-- The node itself. -/
def FiledReplies.entry (f : FiledReplies A β) : A × BitVec 32 × Option A := (f.node, f.key, f.data)

/-- The list of replies, as the map points to it. -/
def FiledReplies.list (f : FiledReplies A β) : Option A × List (A × Buffer β) := (f.data, f.entries)

/-- The node as it is in the map of a `XcbIn`. -/
def FiledReplies.filed (f : FiledReplies A β) : BitVec 32 × List (Buffer β) :=
  (f.key, contents f.entries)

namespace LinkedIn

/-- Memory holds these nodes, in lists with their tails at the last links, and no others; what is in
them are the lists of `c`. -/
structure Represents (m : LinkedIn A β) (s : Shape A β) (c : XcbIn τ β) : Prop where
  requestExpected : m.requestExpected = c.requestExpected
  requestRead : m.requestRead = c.requestRead
  requestCompleted : m.requestCompleted = c.requestCompleted
  replyNodes : Stores m.replyNodes m.currentReply s.currentReply (s.filed.map FiledReplies.list)
  mapNodes : Stores m.mapNodes m.replies (s.filed.map FiledReplies.entry) []
  eventNodes : Stores m.eventNodes m.events s.events []
  pendingNodes : Stores m.pendingNodes m.pendingReplies s.pendingReplies []
  currentReply : contents s.currentReply = c.currentReply
  replies : s.filed.map FiledReplies.filed = c.replies.nodes
  events : contents s.events = c.events
  pendingReplies : contents s.pendingReplies = c.pendingReplies

theorem represents_init : (init : LinkedIn A β).Represents ⟨[], [], [], []⟩
    (XcbIn.init : XcbIn τ β) where
  requestExpected := rfl
  requestRead := rfl
  requestCompleted := rfl
  replyNodes := Stores.empty
  mapNodes := Stores.empty
  eventNodes := Stores.empty
  pendingNodes := Stores.empty
  currentReply := rfl
  replies := rfl
  events := rfl
  pendingReplies := rfl

/-- There is a shape that goes with these. -/
def Refines (m : LinkedIn A β) (c : XcbIn τ β) : Prop := ∃ s, m.Represents s c

variable {m : LinkedIn A β} {s : Shape A β} {c : XcbIn τ β}

/-- Where the replies are, a list is empty when its head is null. -/
theorem Represents.currentReply_eq_nil_iff (h : m.Represents s c) :
    c.currentReply = [] ↔ m.currentReply.head = none := by
  rw [h.replyNodes.head_eq_none_iff, ← h.currentReply]
  exact List.map_eq_nil_iff

variable [DecidableEq A]

/-! ### The map of replies -/

theorem putReplies_meets {nodes : List (A × BitVec 32 × Option A)}
    (h : Stores m.mapNodes m.replies nodes []) (node : A) (key : BitVec 32) (data : Option A) :
    Meets (m.mapNodes node = none) (m.putReplies node key data) fun m' =>
      ∃ mapNodes replies, m' = { m with mapNodes := mapNodes, replies := replies } ∧
        Stores mapNodes replies (nodes ++ [(node, key, data)]) [] := by
  refine (mapPut_meets h node key data).bind ?_
  rintro ⟨mapNodes, replies⟩ hstores
  exact .of_eq rfl ⟨mapNodes, replies, rfl, hstores⟩

/-- The first list with the key is taken out of the map, if there is one. Its nodes stay. -/
theorem Represents.removeReplies (h : m.Represents s c) (fuel : ℕ) (key : BitVec 32) :
    Meets (s.filed.length < fuel) (m.removeReplies fuel key) fun r =>
      (∃ before f after mapNodes replies, s.filed = before ++ f :: after ∧
          c.replies.remove key =
            (some (contents f.entries), ⟨(before ++ after).map FiledReplies.filed⟩) ∧
          r = (f.data, { m with mapNodes := mapNodes, replies := replies }) ∧
            Stores mapNodes replies ((before ++ after).map FiledReplies.entry) []) ∨
        c.replies.remove key = (none, c.replies) ∧ r = (none, m) := by
  have hlength : (s.filed.map FiledReplies.entry).length = s.filed.length := List.length_map _
  refine ((mapRemove_meets h.mapNodes fuel key).imp (fun hlt => hlength.symm ▸ hlt)
    fun _ => id).bind ?_
  rintro ⟨found, mapNodes, replies⟩
    (⟨before, cur, data, after, hsplit, hbefore, hdata, hstores⟩ | ⟨hnone, hr⟩)
  · obtain ⟨left, rest, hfiled, rfl, hrest⟩ := List.map_eq_append_iff.mp hsplit
    obtain ⟨f, right, rfl, hf, rfl⟩ := List.map_eq_cons_iff.mp hrest
    obtain rfl : found = some data := hdata
    rw [FiledReplies.entry, Prod.mk.injEq, Prod.mk.injEq] at hf
    obtain ⟨-, rfl, rfl⟩ := hf
    refine .of_eq rfl (.inl ⟨left, f, right, mapNodes, replies, hfiled, ?_, rfl, ?_⟩)
    · have hnodes : c.replies.nodes = left.map FiledReplies.filed ++
          (f.key, contents f.entries) :: right.map FiledReplies.filed := by
        rw [← h.replies, hfiled, List.map_append]
        rfl
      show (XcbMap.mk c.replies.nodes).remove f.key = _
      rw [hnodes, XcbMap.remove_of_append, List.map_append]
      intro node hnode
      obtain ⟨g, hg, rfl⟩ := List.mem_map.mp hnode
      exact hbefore g.entry (List.mem_map_of_mem hg)
    · rw [List.map_append]
      exact hstores
  · cases hr
    refine .of_eq rfl (.inr ⟨XcbMap.remove_of_forall_ne fun node hnode => ?_, rfl⟩)
    rw [← h.replies] at hnode
    obtain ⟨g, hg, rfl⟩ := List.mem_map.mp hnode
    exact hnone g.entry (List.mem_map_of_mem hg)

omit [DecidableEq A] in
/-- A list that was taken out of the map is still in memory. -/
theorem Represents.owns_takeOut (h : m.Represents s c) {before after : List (FiledReplies A β)}
    {f : FiledReplies A β} (hfiled : s.filed = before ++ f :: after) :
    Owns m.replyNodes (f.list :: (m.currentReply.head, s.currentReply) ::
      (before ++ after).map FiledReplies.list) := by
  refine h.replyNodes.owns.perm ?_
  rw [hfiled, List.map_append, List.map_append]
  exact (List.perm_middle.cons _).trans (List.Perm.swap _ _ _)

/-- A list of replies that was taken out of the map is freed. -/
theorem Represents.freeReplies (h : m.Represents s c) (fuel : ℕ) (key : BitVec 32) :
    Meets (s.filed.length < fuel ∧ ∀ f ∈ s.filed, f.entries.length < fuel)
      (m.freeReplies fuel key) fun r =>
        r.1 = (c.replies.remove key).1.getD [] ∧
          r.2.Refines { c with replies := (c.replies.remove key).2 } := by
  refine ((h.removeReplies fuel key).imp And.left fun _ => id).bind ?_
  rintro r (⟨before, f, after, mapNodes, replies, hfiled, hremove, rfl, hstores⟩ | ⟨hremove, rfl⟩)
  · have howns := h.owns_takeOut hfiled
    refine ((howns.freeAll fuel).imp (fun hable => ?_) fun _ => id).bind ?_
    · exact hable.2 f (hfiled ▸ List.mem_append_right _ List.mem_cons_self)
    rintro ⟨freed, replyNodes⟩ ⟨hfreed, howns⟩
    refine .of_eq rfl ⟨?_, { s with filed := before ++ after }, ?_⟩
    · rw [hremove]
      exact hfreed
    · exact { h with
        replyNodes := h.replyNodes.others howns
        mapNodes := hstores
        replies := by rw [hremove] }
  · have howns : Owns m.replyNodes
        ((none, []) :: (m.currentReply.head, s.currentReply) :: s.filed.map FiledReplies.list) :=
      Owns.cons_nil_iff.mpr ⟨rfl, h.replyNodes.owns⟩
    refine ((howns.freeAll fuel).imp (fun hable => ?_) fun _ => id).bind ?_
    · exact Nat.lt_of_le_of_lt (Nat.zero_le _) hable.1
    rintro ⟨freed, replyNodes⟩ ⟨hfreed, howns⟩
    refine .of_eq rfl ⟨?_, s, ?_⟩
    · rw [hremove]
      exact hfreed
    · exact { h with
        replyNodes := h.replyNodes.others howns
        replies := by rw [hremove]; exact h.replies }
/-! ### `read_packet` -/

/-- Up to its end, `read_packet` moves replies only as a list. -/
def SameStore (m m' : LinkedIn A β) : Prop :=
  m'.replyNodes = m.replyNodes ∧ m'.eventNodes = m.eventNodes

theorem Represents.fileReplies (h : m.Represents s c) (lastread : BitVec 64) (node : A) :
    Meets (m.mapNodes node = none) (m.fileReplies lastread node) fun m' =>
      SameStore m m' ∧ ∃ s', s'.pendingReplies = s.pendingReplies ∧ m'.Represents s' { c with
        replies := if c.currentReply = [] then c.replies
          else c.replies.put (low32 lastread) c.currentReply
        currentReply := [] } := by
  rw [LinkedIn.fileReplies]
  by_cases hcurrent : c.currentReply = []
  · rw [if_pos (h.currentReply_eq_nil_iff.mp hcurrent), if_pos hcurrent]
    exact .of_eq rfl
      ⟨⟨rfl, rfl⟩, s, rfl, { h with currentReply := h.currentReply.trans hcurrent }⟩
  · rw [if_neg fun hnone => hcurrent (h.currentReply_eq_nil_iff.mpr hnone), if_neg hcurrent]
    refine (putReplies_meets h.mapNodes node (low32 lastread) m.currentReply.head).bind ?_
    rintro _ ⟨mapNodes, replies, rfl, hstores⟩
    refine .of_eq rfl ⟨⟨rfl, rfl⟩, { s with
      currentReply := []
      filed := s.filed ++ [⟨node, low32 lastread, m.currentReply.head, s.currentReply⟩] },
      rfl, ?_⟩
    exact { h with
      replyNodes := by
        rw [List.map_append]
        exact h.replyNodes.file
      mapNodes := by
        rw [List.map_append]
        exact hstores
      currentReply := rfl
      replies := by
        rw [List.map_append, h.replies, ← h.currentReply]
        rfl }

theorem Represents.advanceRead (h : m.Represents s c) (read : BitVec 64) (node : A) :
    Meets (m.mapNodes node = none) (m.advanceRead read node) fun m' =>
      SameStore m m' ∧ ∃ s', s'.pendingReplies = s.pendingReplies ∧
        m'.Represents s' (c.advanceRead read) := by
  have hexpected :
      (if sequenceCompare read m.requestExpected > 0 then read else m.requestExpected) =
      if sequenceCompare read c.requestExpected > 0 then read else c.requestExpected := by
    rw [h.requestExpected]
  rw [LinkedIn.advanceRead, h.requestRead]
  by_cases hread : read = c.requestRead
  · rw [if_neg (not_not.mpr hread), XcbIn.advanceRead_of_eq hread]
    exact .of_eq rfl
      ⟨⟨rfl, rfl⟩, s, rfl, { h with requestExpected := hexpected, requestRead := rfl }⟩
  · rw [if_pos hread, XcbIn.advanceRead_of_ne hread]
    have hnumbers : ({ m with
        requestRead := read
        requestExpected := if sequenceCompare read m.requestExpected > 0 then read
          else m.requestExpected } : LinkedIn A β).Represents s { c with
        requestRead := read
        requestExpected := if sequenceCompare read c.requestExpected > 0 then read
          else c.requestExpected } :=
      { h with requestExpected := hexpected, requestRead := rfl }
    refine (hnumbers.fileReplies c.requestRead node).bind ?_
    rintro m' ⟨hsame, s', hpending, h'⟩
    exact .of_eq rfl ⟨hsame, s', hpending, { h' with requestCompleted := rfl }⟩

/-- Entries go from the head of the list. -/
theorem Represents.retirePending (h : m.Represents s c) (fuel : ℕ) :
    Meets (s.pendingReplies.length < fuel) (m.retirePending fuel) fun m' =>
      SameStore m m' ∧ m'.Refines c.retirePending := by
  refine (h.pendingNodes.popWhile (fun pend => pend.retired m.requestCompleted) fuel).bind ?_
  rintro ⟨pendingNodes, pendingReplies⟩ hstores
  refine .of_eq rfl ⟨⟨rfl, rfl⟩, { s with
    pendingReplies := s.pendingReplies.dropWhile fun node => node.2.retired m.requestCompleted },
    { h with pendingNodes := hstores, pendingReplies := ?_ }⟩
  rw [XcbIn.retirePending, ← h.requestCompleted, ← h.pendingReplies, contents, contents,
    List.dropWhile_map]
  rfl

omit [DecidableEq A] in
theorem Represents.completeError (h : m.Represents s c) (p : Packet β) :
    (m.completeError p).Represents s (c.completeError p) := by
  rw [LinkedIn.completeError, XcbIn.completeError]
  split
  · exact { h with requestCompleted := h.requestRead }
  · exact h

theorem Represents.advance (h : m.Represents s c) (fuel : ℕ) (p : Packet β) (node : A) :
    Meets (m.mapNodes node = none ∧ s.pendingReplies.length < fuel) (m.advance fuel p node)
      fun m' => SameStore m m' ∧ m'.Refines (c.advance p) := by
  rw [LinkedIn.advance, XcbIn.advance]
  split
  · exact .of_eq rfl ⟨⟨rfl, rfl⟩, s, h⟩
  · rw [h.requestRead]
    refine ((h.advanceRead _ node).imp And.left fun _ => id).bind ?_
    rintro m' ⟨hsame, s', hpending, h'⟩
    refine ((h'.retirePending fuel).imp (fun hable => hpending ▸ hable.2) fun _ => id).bind ?_
    rintro m'' ⟨hsame', s'', h''⟩
    refine .of_eq rfl ⟨?_, s'', h''.completeError p⟩
    rw [LinkedIn.completeError]
    split <;> exact ⟨hsame'.1.trans hsame.1, hsame'.2.trans hsame.2⟩

/-- The head of the list is looked at where it is. -/
theorem Represents.matchPending (h : m.Represents s c) (p : Packet β) :
    m.matchPending p = some (c.matchPending p) := by
  rw [LinkedIn.matchPending, XcbIn.matchPending]
  split
  · rw [← h.pendingReplies]
    have hhead := h.pendingNodes.head_eq_none_iff
    cases hpending : s.pendingReplies with
    | nil =>
      rw [hhead.mpr hpending]
      rfl
    | cons node pending =>
      obtain ⟨pend, data⟩ := node
      obtain ⟨hsome, next, hnode, -⟩ := (hpending ▸ h.pendingNodes.owns).releaseHead
      rw [hsome]
      show (m.pendingNodes pend >>= _) = _
      rw [hnode, ← h.requestRead]
      rfl
  · rfl
omit [DecidableEq A] in
theorem Represents.buffer (h : m.Represents s c) (p : Packet β) : m.buffer p = c.buffer p := by
  rw [LinkedIn.buffer, XcbIn.buffer, h.requestRead]

/-- A packet is stored behind the others. -/
theorem Represents.storePacket (h : m.Represents s c) (p : Packet β) (entry : A) :
    Meets (m.replyNodes entry = none ∧ m.eventNodes entry = none)
      (m.storePacket (c.matchPending p) p entry) fun m' => m'.Refines { c with
        currentReply := if route (c.matchPending p) p = .replyStore then
            c.currentReply ++ [c.buffer p]
          else c.currentReply
        events := if route (c.matchPending p) p = .eventQueue then c.events ++ [c.buffer p]
          else c.events } := by
  rw [LinkedIn.storePacket]
  cases route (c.matchPending p) p with
  | discard => exact .of_eq rfl ⟨s, h⟩
  | replyStore =>
    refine ((h.replyNodes.append entry (m.buffer p)).imp And.left fun _ => id).bind ?_
    rintro ⟨replyNodes, currentReply⟩ hstores
    refine .of_eq rfl ⟨{ s with currentReply := s.currentReply ++ [(entry, m.buffer p)] },
      { h with replyNodes := hstores, currentReply := ?_ }⟩
    rw [contents, List.map_append, ← h.buffer, if_pos rfl, ← h.currentReply]
    rfl
  | eventQueue =>
    refine ((h.eventNodes.append entry (m.buffer p)).imp And.right fun _ => id).bind ?_
    rintro ⟨eventNodes, events⟩ hstores
    refine .of_eq rfl ⟨{ s with events := s.events ++ [(entry, m.buffer p)] },
      { h with eventNodes := hstores, events := ?_ }⟩
    rw [contents, List.map_append, ← h.buffer, if_pos rfl, ← h.events]
    rfl

theorem Represents.readPacket (h : m.Represents s c) (fuel : ℕ) (p : Packet β) (readFails : Bool)
    (node entry : A) :
    Meets (m.mapNodes node = none ∧ m.replyNodes entry = none ∧ m.eventNodes entry = none ∧
        s.pendingReplies.length < fuel)
      (m.readPacket fuel p readFails node entry) fun m' =>
        m'.Refines (if readFails then c.advance p else (c.readPacket p).1) := by
  rw [LinkedIn.readPacket]
  refine ((h.advance fuel p node).imp (fun hable => ⟨hable.1, hable.2.2.2⟩) fun _ => id).bind ?_
  rintro m' ⟨hsame, s', h'⟩
  rw [h'.matchPending]
  cases readFails with
  | true => exact .of_eq rfl ⟨s', h'⟩
  | false =>
    rw [if_neg Bool.false_ne_true, XcbIn.readPacket_fst]
    refine (h'.storePacket p entry).imp (fun hable => ?_) fun _ => id
    rw [hsame.1, hsame.2]
    exact ⟨hable.2.1, hable.2.2.1⟩
/-! ### Handing packets out -/

theorem Represents.getEvent (h : m.Represents s c) (able : Prop) :
    Meets able m.getEvent fun r => r.1 = c.getEvent.1 ∧ r.2.Refines c.getEvent.2 := by
  have hhead := h.eventNodes.head_eq_none_iff
  rw [LinkedIn.getEvent, XcbIn.getEvent]
  cases hevents : s.events with
  | nil =>
    have hnil : c.events = [] := by
      rw [← h.events, hevents]
      rfl
    rw [hhead.mpr hevents, hnil]
    exact .of_eq rfl ⟨rfl, s, h⟩
  | cons node next =>
    obtain ⟨cur, event⟩ := node
    have hcons : c.events = event :: contents next := by
      rw [← h.events, hevents]
      rfl
    obtain ⟨hsome, events, hpop, hstores⟩ := (hevents ▸ h.eventNodes).pop
    rw [hsome, hcons]
    refine .of_eq (r := (some event, { m with
      eventNodes := release m.eventNodes cur, events := events })) ?_
      ⟨rfl, { s with events := next }, { h with eventNodes := hstores, events := rfl }⟩
    show (pop m.eventNodes m.events cur >>= _) = _
    rw [hpop]
    rfl

/-- The first reply of a list that was taken out of the map is handed back, the others are filed
again. -/
theorem Represents.pollFiled (h : m.Represents s c) (fuel : ℕ) (request : BitVec 32) (node : A)
    (hrequest : request ≠ 0) (hread : sequenceCompare32 request (low32 c.requestRead) < 0) :
    Meets (m.mapNodes node = none ∧ s.filed.length < fuel) (m.pollForReply fuel request node)
      fun r => r.1 = (c.pollForReply request).1 ∧ r.2.Refines (c.pollForReply request).2 := by
  rw [LinkedIn.pollForReply, XcbIn.pollForReply, if_neg hrequest, if_neg hrequest, h.requestRead,
    if_pos hread, if_pos hread]
  refine ((h.removeReplies fuel request).imp And.right fun _ => id).bind ?_
  rintro r (⟨before, f, after, mapNodes, replies, hfiled, hremove, rfl, hstores⟩ | ⟨hremove, rfl⟩)
  · have howns := h.owns_takeOut hfiled
    rw [hremove]
    cases hentries : f.entries with
    | nil =>
      rw [FiledReplies.list, hentries, Owns.cons_nil_iff] at howns
      rw [howns.1]
      exact .of_eq rfl ⟨rfl, { s with filed := before ++ after }, { h with
        replyNodes := h.replyNodes.others howns.2
        mapNodes := hstores
        replies := rfl }⟩
    | cons node' next =>
      obtain ⟨head, reply⟩ := node'
      rw [FiledReplies.list, hentries] at howns
      obtain ⟨hdata, link, hnode, hnull, hreleased⟩ := howns.releaseHead
      have hable : m.mapNodes node = none ∧ s.filed.length < fuel → mapNodes node = none := by
        rintro ⟨hnone, -⟩
        refine hstores.owns.eq_none_iff.mpr fun hmem => h.mapNodes.owns.eq_none_iff.mp hnone ?_
        rw [hfiled]
        simp only [allAddresses_cons, List.map_append, List.map_cons, addresses_append,
          List.mem_append] at hmem ⊢
        rcases hmem with (hleft | hright) | hnil
        · exact .inl (.inl hleft)
        · exact .inl (.inr (List.mem_cons_of_mem _ hright))
        · exact .inr hnil
      rw [hdata]
      show Meets _ (m.replyNodes head >>= _) _
      rw [hnode]
      show Meets _ (refileReplies _ node request link >>= _) _
      rw [refileReplies]
      by_cases hnext : next = []
      · rw [if_pos (hnull.mpr hnext)]
        rw [hnull.mpr hnext, hnext, Owns.cons_nil_iff] at hreleased
        rw [hnext]
        exact .of_eq rfl ⟨rfl, { s with filed := before ++ after }, { h with
          replyNodes := h.replyNodes.others hreleased.2
          mapNodes := hstores
          replies := rfl }⟩
      · rw [if_neg fun hnone => hnext (hnull.mp hnone)]
        refine ((putReplies_meets (m := { m with mapNodes := mapNodes, replies := replies })
          hstores node request link).imp hable fun _ => id).bind ?_
        rintro _ ⟨mapNodes', replies', rfl, hstores'⟩
        refine .of_eq rfl ⟨rfl, { s with
          filed := (before ++ after) ++ [⟨node, request, link, next⟩] }, { h with
          replyNodes := h.replyNodes.others (hreleased.perm ?_)
          mapNodes := ?_
          replies := ?_ }⟩
        · simp only [List.map_append]
          exact (List.Perm.swap _ _ _).trans ((List.perm_append_singleton _ _).symm.cons _)
        · rw [List.map_append]
          exact hstores'
        · have hcontents : contents next ≠ [] := fun hnil => hnext (List.map_eq_nil_iff.mp hnil)
          show _ = (if contents next = [] then _ else XcbMap.put _ request (contents next)).nodes
          rw [if_neg hcontents, List.map_append]
          rfl
  · rw [hremove]
    exact .of_eq rfl ⟨rfl, s, h⟩

theorem Represents.pollForReply (h : m.Represents s c) (fuel : ℕ) (request : BitVec 32)
    (node : A) :
    Meets (m.mapNodes node = none ∧ s.filed.length < fuel) (m.pollForReply fuel request node)
      fun r => r.1 = (c.pollForReply request).1 ∧ r.2.Refines (c.pollForReply request).2 := by
  by_cases hrequest : request = 0
  · rw [LinkedIn.pollForReply, XcbIn.pollForReply, if_pos hrequest, if_pos hrequest]
    exact .of_eq rfl ⟨rfl, s, h⟩
  by_cases hread : sequenceCompare32 request (low32 c.requestRead) < 0
  · exact h.pollFiled fuel request node hrequest hread
  have hcurrentIff : (sequenceCompare32 request (low32 m.requestRead) = 0 ∧
      m.currentReply.head ≠ none) ↔
      sequenceCompare32 request (low32 c.requestRead) = 0 ∧ c.currentReply ≠ [] := by
    rw [h.requestRead, ne_eq, ne_eq, h.currentReply_eq_nil_iff]
  rw [LinkedIn.pollForReply, XcbIn.pollForReply, if_neg hrequest, if_neg hrequest,
    if_neg (h.requestRead ▸ hread), if_neg hread]
  by_cases hcurrent : sequenceCompare32 request (low32 c.requestRead) = 0 ∧ c.currentReply ≠ []
  · rw [if_pos (hcurrentIff.mpr hcurrent), if_pos hcurrent]
    cases hreplies : s.currentReply with
    | nil => exact absurd (h.currentReply ▸ hreplies ▸ rfl) hcurrent.2
    | cons node' next =>
      obtain ⟨head, reply⟩ := node'
      have hcons : c.currentReply = reply :: contents next := by
        rw [← h.currentReply, hreplies]
        rfl
      obtain ⟨hsome, currentReply, hpop, hstores⟩ := (hreplies ▸ h.replyNodes).pop
      rw [hcons]
      refine .of_eq (r := (some (some reply), { m with
        replyNodes := release m.replyNodes head, currentReply := currentReply })) ?_
        ⟨rfl, { s with currentReply := next }, { h with
          replyNodes := hstores
          currentReply := rfl }⟩
      rw [hsome]
      show (pop m.replyNodes m.currentReply head >>= _) = _
      rw [hpop]
      rfl
  · rw [if_neg fun hboth => hcurrent (hcurrentIff.mp hboth), if_neg hcurrent, h.requestCompleted]
    split
    · exact .of_eq rfl ⟨rfl, s, h⟩
    · exact .of_eq rfl ⟨rfl, s, h⟩

/-! ### Pending entries -/

/-- A new entry goes behind any number of entries. -/
theorem Represents.insertPendingDiscard {before after : List (A × PendingReply)}
    (h : m.Represents s c) (hpending : s.pendingReplies = before ++ after) (seq : BitVec 64)
    (pend : A) :
    Meets (m.pendingNodes pend = none)
      (m.insertPendingDiscard (lastPlace .head before) seq pend) fun m' => m'.Refines { c with
        pendingReplies := contents before ++ pendingDiscard seq :: contents after } := by
  refine ((hpending ▸ h.pendingNodes).insertAt pend (pendingDiscard seq)).bind ?_
  rintro ⟨pendingNodes, pendingReplies⟩ hstores
  exact .of_eq rfl ⟨{ s with pendingReplies := before ++ (pend, pendingDiscard seq) :: after },
    { h with pendingNodes := hstores, pendingReplies := List.map_append }⟩

/-- An entry is marked where it is. -/
theorem Represents.discardPending {before after : List (A × PendingReply)} {pend : A}
    {data : PendingReply} (h : m.Represents s c)
    (hpending : s.pendingReplies = before ++ (pend, data) :: after) (able : Prop) :
    Meets able (m.discardPending pend) fun m' => m'.Refines { c with
      pendingReplies := contents before ++ data.discard :: contents after } := by
  obtain ⟨pendingNodes, hmodify, hstores⟩ :=
    (hpending ▸ h.pendingNodes).modify PendingReply.discard
  rw [LinkedIn.discardPending, hmodify]
  exact .of_eq rfl ⟨{ s with pendingReplies := before ++ (pend, data.discard) :: after },
    { h with pendingNodes := hstores, pendingReplies := List.map_append }⟩

theorem Represents.discardFurther (h : m.Represents s c) (pend : A) :
    Meets (m.pendingNodes pend = none) (m.discardFurther pend) fun m' => m'.Refines { c with
      pendingReplies := match c.pendingReplies with
        | pend :: next =>
          if pend.covers c.requestRead then pend.discard :: next
          else pendingDiscard c.requestRead :: pend :: next
        | [] => [pendingDiscard c.requestRead] } := by
  have hhead := h.pendingNodes.head_eq_none_iff
  rw [LinkedIn.discardFurther, h.requestRead, ← h.pendingReplies]
  cases hpending : s.pendingReplies with
  | nil =>
    have hsplit : s.pendingReplies = [] ++ [] := hpending
    rw [hhead.mpr hpending]
    exact h.insertPendingDiscard hsplit c.requestRead pend
  | cons node next =>
    obtain ⟨first, data⟩ := node
    have hsplit : s.pendingReplies = [] ++ (first, data) :: next := hpending
    obtain ⟨hsome, link, hnode, -⟩ := (hpending ▸ h.pendingNodes.owns).releaseHead
    rw [hsome]
    show Meets _ (m.pendingNodes first >>= _) _
    rw [hnode]
    show Meets _ (if data.covers c.requestRead then _ else _) fun m' => Refines m' { c with
      pendingReplies := if data.covers c.requestRead then _ else _ }
    split
    · exact h.discardPending hsplit _
    · exact h.insertPendingDiscard hsplit c.requestRead pend

/-- The replies being read are freed, and further ones will be discarded. -/
theorem Represents.discardCurrent (h : m.Represents s c) (fuel : ℕ) (pend : A) :
    Meets (m.pendingNodes pend = none ∧ s.currentReply.length < fuel) (m.discardCurrent fuel pend)
      fun m' => m'.Refines { c with
        currentReply := []
        pendingReplies := match c.pendingReplies with
          | pend :: next =>
            if pend.covers c.requestRead then pend.discard :: next
            else pendingDiscard c.requestRead :: pend :: next
          | [] => [pendingDiscard c.requestRead] } := by
  refine ((h.replyNodes.owns.freeAll fuel).imp And.right fun _ => id).bind ?_
  rintro ⟨freed, replyNodes⟩ ⟨-, howns⟩
  have h' : ({ m with replyNodes := replyNodes, currentReply := Tailed.empty } :
      LinkedIn A β).Represents { s with currentReply := [] } { c with currentReply := [] } :=
    { h with
      replyNodes := ⟨Owns.cons_nil_iff.mpr ⟨rfl, howns⟩, rfl⟩
      currentReply := rfl }
  exact (h'.discardFurther pend).imp And.left fun _ => id

/-- The walk finds the first entry that is not earlier. -/
theorem markDiscard_append {request : BitVec 32} {before : List PendingReply}
    (h : ∀ pend ∈ before, sequenceCompare32 (low32 pend.firstRequest) request < 0)
    (seq : BitVec 64) (after : List PendingReply) :
    Xcb.markDiscard request seq (before ++ after) =
      before ++ Xcb.markDiscard request seq after := by
  induction before with
  | nil => rfl
  | cons pend before ih =>
    have hlt := h pend List.mem_cons_self
    rw [List.cons_append, Xcb.markDiscard, if_neg hlt.le.not_gt, if_neg hlt.ne,
      ih fun pend hpend => h pend (List.mem_cons_of_mem _ hpend)]
    rfl

theorem Represents.markDiscard (h : m.Represents s c) (fuel : ℕ) (request : BitVec 32)
    (seq : BitVec 64) (pend : A) :
    Meets (m.pendingNodes pend = none ∧ s.pendingReplies.length < fuel)
      (m.markDiscard fuel request seq pend) fun m' => m'.Refines { c with
        pendingReplies := Xcb.markDiscard request seq c.pendingReplies } := by
  have hearlier : ∀ nodes : List (A × PendingReply), (∀ node ∈ nodes,
      decide (sequenceCompare32 (low32 node.2.firstRequest) request > 0 ∨
        sequenceCompare32 (low32 node.2.firstRequest) request = 0) = false) →
      ∀ pend ∈ contents nodes, sequenceCompare32 (low32 pend.firstRequest) request < 0 := by
    intro nodes hnodes pend hpend
    obtain ⟨node, hnode, rfl⟩ := List.mem_map.mp hpend
    have hnot := of_decide_eq_false (hnodes node hnode)
    omega
  refine ((h.pendingNodes.seek _ fuel).imp And.right fun _ => id).bind ?_
  rintro _ (⟨before, found, data, after, hpending, hstop, hbefore, rfl⟩ | ⟨hnone, rfl⟩)
  · have hload : load m.pendingNodes m.pendingReplies.head (lastPlace .head before) =
        some (some found) :=
      (hpending ▸ h.pendingNodes).unlink.1
    obtain ⟨-, -, rfl, next, hnode, -⟩ :=
      segment_append.mp (hpending ▸ h.pendingNodes.holds.segment)
    have hlist : c.pendingReplies = contents before ++ data :: contents after := by
      rw [← h.pendingReplies, hpending]
      exact List.map_append
    rw [hload, hlist, markDiscard_append (hearlier before hbefore)]
    show Meets _ (m.pendingNodes found >>= _) _
    rw [hnode, Xcb.markDiscard]
    show Meets _ (if sequenceCompare32 (low32 data.firstRequest) request > 0 then _ else _) _
    by_cases hlater : sequenceCompare32 (low32 data.firstRequest) request > 0
    · rw [if_pos hlater, if_pos hlater]
      exact (h.insertPendingDiscard hpending seq pend).imp And.left fun _ => id
    · have hsame := (of_decide_eq_true hstop).resolve_left hlater
      rw [if_neg hlater, if_neg hlater, if_pos hsame]
      exact h.discardPending hpending _
  · have hload : load m.pendingNodes m.pendingReplies.head (lastPlace .head s.pendingReplies) =
        some none :=
      h.pendingNodes.holds.segment.load_lastPlace
    have hlist : c.pendingReplies = contents s.pendingReplies ++ [] := by
      rw [List.append_nil, h.pendingReplies]
    rw [hload, hlist, markDiscard_append (hearlier _ hnone)]
    have hinsert := h.insertPendingDiscard (List.append_nil s.pendingReplies).symm seq pend
    exact hinsert.imp And.left fun _ => id

theorem Represents.discardReply (h : m.Represents s c) (fuel : ℕ) (outRequest : BitVec 64)
    (request : BitVec 32) (pend : A) :
    Meets (m.pendingNodes pend = none ∧ s.filed.length < fuel ∧
        (∀ f ∈ s.filed, f.entries.length < fuel) ∧ s.currentReply.length < fuel ∧
          s.pendingReplies.length < fuel)
      (m.discardReply fuel outRequest request pend)
      fun m' => m'.Refines (c.discardReply outRequest request) := by
  have hcurrentIff : (sequenceCompare32 request (low32 m.requestRead) = 0 ∧
      m.currentReply.head ≠ none) ↔
      sequenceCompare32 request (low32 c.requestRead) = 0 ∧ c.currentReply ≠ [] := by
    rw [h.requestRead, ne_eq, ne_eq, h.currentReply_eq_nil_iff]
  rw [LinkedIn.discardReply, XcbIn.discardReply, h.requestRead]
  by_cases hread : sequenceCompare32 request (low32 c.requestRead) < 0
  · rw [if_pos hread, if_pos hread]
    refine ((h.freeReplies fuel request).imp (fun hable => ⟨hable.2.1, hable.2.2.1⟩)
      fun _ => id).bind ?_
    rintro ⟨freed, m'⟩ ⟨-, h'⟩
    exact .of_eq rfl h'
  rw [if_neg hread, if_neg hread]
  by_cases hcurrent : sequenceCompare32 request (low32 c.requestRead) = 0 ∧ c.currentReply ≠ []
  · rw [if_pos (h.requestRead ▸ hcurrentIff.mpr hcurrent), if_pos hcurrent]
    exact (h.discardCurrent fuel pend).imp (fun hable => ⟨hable.1, hable.2.2.2.1⟩) fun _ => id
  · rw [if_neg (h.requestRead ▸ fun hboth => hcurrent (hcurrentIff.mp hboth)), if_neg hcurrent]
    exact (h.markDiscard fuel request _ pend).imp
      (fun hable => ⟨hable.1, hable.2.2.2.2⟩) fun _ => id

theorem Represents.expectReply (h : m.Represents s c) (request : BitVec 64)
    (workaround : Workaround) (flags : Flags) (pend : A) :
    Meets (m.pendingNodes pend = none) (m.expectReply request workaround flags pend)
      fun m' => m'.Refines (c.expectReply request workaround flags) := by
  refine (h.pendingNodes.append pend ⟨request, request, workaround, flags⟩).bind ?_
  rintro ⟨pendingNodes, pendingReplies⟩ hstores
  refine .of_eq rfl ⟨{ s with
    pendingReplies := s.pendingReplies ++ [(pend, ⟨request, request, workaround, flags⟩)] },
    { h with pendingNodes := hstores, pendingReplies := ?_ }⟩
  rw [contents, List.map_append, XcbIn.expectReply, ← h.pendingReplies]
  rfl

/-- The tail points into the last entry. -/
theorem Represents.repliesDone (h : m.Represents s c) (outRequest : BitVec 64) (able : Prop) :
    Meets able (m.repliesDone outRequest) fun m' => m'.Refines (c.repliesDone outRequest) := by
  rw [LinkedIn.repliesDone, XcbIn.repliesDone, h.pendingNodes.tail]
  rcases List.eq_nil_or_concat s.pendingReplies with hpending | ⟨before, ⟨pend, data⟩, hpending⟩
  · have hnil : c.pendingReplies = [] := by
      rw [← h.pendingReplies, hpending]
      rfl
    rw [hpending, hnil]
    exact .of_eq rfl ⟨s, h⟩
  · rw [List.concat_eq_append] at hpending
    have hlist : c.pendingReplies = contents before ++ [data] := by
      rw [← h.pendingReplies, hpending]
      exact List.map_append
    have htail : lastPlace .head s.pendingReplies = .next pend := by
      rw [hpending, lastPlace_append]
      rfl
    obtain ⟨-, -, rfl, next, hnode, -⟩ :=
      segment_append.mp (hpending ▸ h.pendingNodes.holds.segment)
    rw [htail, hlist, List.getLast?_concat, List.dropLast_concat]
    show Meets _ (m.pendingNodes pend >>= _) _
    rw [hnode]
    show Meets _ (if data.workaround = .externalSocketOwner then _ else _) fun m' =>
      Refines m' (if data.workaround = .externalSocketOwner then _ else _)
    split
    · obtain ⟨pendingNodes, hmodify, hstores⟩ := (hpending ▸ h.pendingNodes).modify
        fun pend => { pend with lastRequest := outRequest, workaround := .none }
      rw [hmodify]
      exact .of_eq rfl ⟨{ s with
        pendingReplies :=
          before ++ [(pend, { data with lastRequest := outRequest, workaround := .none })] },
        { h with pendingNodes := hstores, pendingReplies := List.map_append }⟩
    · exact .of_eq rfl ⟨s, h⟩

theorem Represents.putEntries (h : m.Represents s c) (key : BitVec 32)
    (entries : List (A × Buffer β)) (node : A) :
    Meets (m.mapNodes node = none ∧ (addresses entries).Nodup ∧
        ∀ a ∈ addresses entries, m.replyNodes a = none)
      (m.putEntries key entries node)
      fun m' => m'.Refines { c with replies := c.replies.put key (contents entries) } := by
  refine ((h.replyNodes.owns.build entries).imp And.right fun _ => id).bind ?_
  rintro ⟨replyNodes, data⟩ howns
  have hmap : Stores m.mapNodes m.replies (s.filed.map FiledReplies.entry) [] := h.mapNodes
  refine ((putReplies_meets (m := { m with replyNodes := replyNodes }) hmap node key data).imp
    And.left ?_)
  rintro _ ⟨mapNodes, replies, rfl, hstores⟩
  refine ⟨{ s with filed := s.filed ++ [⟨node, key, data, entries⟩] }, { h with
    replyNodes := h.replyNodes.others (howns.perm ?_)
    mapNodes := ?_
    replies := ?_ }⟩
  · rw [List.map_append]
    exact (List.Perm.swap _ _ _).trans ((List.perm_append_singleton _ _).symm.cons _)
  · rw [List.map_append]
    exact hstores
  · rw [List.map_append, h.replies]
    rfl

end LinkedIn

/-! ### Calls -/

/-- `malloc` gives memory that is not in use. -/
def ListCall.Fresh (m : LinkedIn A β) : ListCall A β → Prop
  | .readPacket _ _ node entry =>
    m.mapNodes node = none ∧ m.replyNodes entry = none ∧ m.eventNodes entry = none
  | .pollForReply _ node => m.mapNodes node = none
  | .discardReply _ _ pend => m.pendingNodes pend = none
  | .insertPendingDiscard _ _ pend => m.pendingNodes pend = none
  | .expectReply _ _ _ pend => m.pendingNodes pend = none
  | .mapPut _ entries node => m.mapNodes node = none ∧ (addresses entries).Nodup ∧
      ∀ a ∈ addresses entries, m.replyNodes a = none
  | .getEvent | .repliesDone _ | .mapRemove _ => True

/-- No loop is longer than this. -/
def Shape.size (s : Shape A β) : ℕ :=
  s.currentReply.length + s.filed.length + (s.filed.map fun f => f.entries.length).sum +
    s.pendingReplies.length

theorem Shape.length_entries_le {s : Shape A β} {f : FiledReplies A β} (h : f ∈ s.filed) :
    f.entries.length ≤ s.size := by
  have hle : f.entries.length ≤ (s.filed.map fun f => f.entries.length).sum :=
    List.single_le_sum (fun _ _ => Nat.zero_le _) _ (List.mem_map_of_mem h)
  have hsize : (s.filed.map fun f => f.entries.length).sum ≤ s.size := by
    rw [Shape.size]
    omega
  exact hle.trans hsize

namespace LinkedIn

variable [DecidableEq A] {m : LinkedIn A β} {s : Shape A β} {c : XcbIn τ β}

omit [DecidableEq A] in
/-- A call without an answer. -/
theorem done_meets {able : Prop} {x : Option (LinkedIn A β)}
    (h : Meets able x fun m' => m'.Refines c) :
    Meets able (do return ((Answer.done : Answer β), ← x)) fun r =>
      r.1 = .done ∧ r.2.Refines c :=
  h.bind fun _ hr => .of_eq rfl ⟨rfl, hr⟩

/-- **A call** does to the links what it does to the lists, and it ends. -/
theorem Represents.perform (h : m.Represents s c) (fuel : ℕ) (call : ListCall A β) :
    Meets (call.Fresh m ∧ s.size < fuel) (m.perform fuel call) fun r =>
      r.1 = (c.perform call).1 ∧ r.2.Refines (c.perform call).2 := by
  have hpending : s.size < fuel → s.pendingReplies.length < fuel := by
    rw [Shape.size]
    omega
  have hfiled : s.size < fuel → s.filed.length < fuel := by
    rw [Shape.size]
    omega
  have hcurrent : s.size < fuel → s.currentReply.length < fuel := by
    rw [Shape.size]
    omega
  have hentries : s.size < fuel → ∀ f ∈ s.filed, f.entries.length < fuel :=
    fun hsize f hf => (Shape.length_entries_le hf).trans_lt hsize
  cases call with
  | readPacket p readFails node entry =>
    refine done_meets ((h.readPacket fuel p readFails node entry).imp ?_ fun _ => id)
    rintro ⟨⟨hnode, hreply, hevent⟩, hsize⟩
    exact ⟨hnode, hreply, hevent, hpending hsize⟩
  | getEvent => exact (h.getEvent _).bind fun _ hr => .of_eq rfl ⟨congrArg _ hr.1, hr.2⟩
  | pollForReply request node =>
    refine ((h.pollForReply fuel request node).imp (fun hable => ⟨hable.1, hfiled hable.2⟩)
      fun _ => id).bind ?_
    exact fun _ hr => .of_eq rfl ⟨congrArg _ hr.1, hr.2⟩
  | discardReply outRequest request pend =>
    refine done_meets ((h.discardReply fuel outRequest request pend).imp ?_ fun _ => id)
    rintro ⟨hpend, hsize⟩
    exact ⟨hpend, hfiled hsize, hentries hsize, hcurrent hsize, hpending hsize⟩
  | insertPendingDiscard index seq pend =>
    have hsplit := (List.take_append_drop index s.pendingReplies).symm
    have hinsert := h.insertPendingDiscard hsplit seq pend
    rw [contents, contents, List.map_take, List.map_drop, ← contents, h.pendingReplies] at hinsert
    rw [LinkedIn.perform, h.pendingNodes.walk]
    exact done_meets (hinsert.imp And.left fun _ => id)
  | expectReply request workaround flags pend =>
    exact done_meets ((h.expectReply request workaround flags pend).imp And.left fun _ => id)
  | repliesDone outRequest => exact done_meets (h.repliesDone outRequest _)
  | mapPut key entries node =>
    exact done_meets ((h.putEntries key entries node).imp And.left fun _ => id)
  | mapRemove key =>
    refine ((h.freeReplies fuel key).imp (fun hable => ⟨hfiled hable.2, hentries hable.2⟩)
      fun _ => id).bind ?_
    exact fun _ hr => .of_eq rfl ⟨congrArg _ hr.1, hr.2⟩

/-! ### Calls in a row -/

theorem run_refines (h : m.Refines c) {calls : List (ℕ × ListCall A β)} {answers : List (Answer β)}
    {m' : LinkedIn A β} (hrun : m.run calls = some (answers, m')) :
    answers = (c.performAll (calls.map Prod.snd)).1 ∧
      m'.Refines (c.performAll (calls.map Prod.snd)).2 := by
  induction calls generalizing m c answers with
  | nil =>
    obtain ⟨rfl, rfl⟩ := Prod.mk.inj (Option.some.inj hrun)
    exact ⟨rfl, h⟩
  | cons call calls ih =>
    obtain ⟨fuel, call⟩ := call
    obtain ⟨s, hs⟩ := h
    rw [LinkedIn.run] at hrun
    obtain ⟨⟨answer, m₁⟩, hcall, hrest⟩ := Option.bind_eq_some_iff.mp hrun
    obtain ⟨⟨answers₁, m₂⟩, hcalls, hend⟩ := Option.bind_eq_some_iff.mp hrest
    obtain ⟨rfl, rfl⟩ := Prod.mk.inj (Option.some.inj hend)
    obtain ⟨hanswer, hm₁⟩ := (hs.perform fuel call).spec _ hcall
    obtain ⟨hanswers, hm₂⟩ := ih hm₁ hcalls
    exact ⟨congrArg₂ List.cons hanswer hanswers, hm₂⟩

/-- The tails address the last links, and all nodes are in the lists. A list of replies is the one
being read, or it is in the map. -/
structure WellLinked (m : LinkedIn A β) : Prop where
  events : TailAtEnd m.eventNodes m.events
  currentReply : TailAtEnd m.replyNodes m.currentReply
  pendingReplies : TailAtEnd m.pendingNodes m.pendingReplies
  replies : TailAtEnd m.mapNodes m.replies
  eventNodes : ∀ a, m.eventNodes a ≠ none → Reaches m.eventNodes m.events.head a
  pendingNodes : ∀ a, m.pendingNodes a ≠ none → Reaches m.pendingNodes m.pendingReplies.head a
  mapNodes : ∀ a, m.mapNodes a ≠ none → Reaches m.mapNodes m.replies.head a
  replyNodes : ∀ a, m.replyNodes a ≠ none → Reaches m.replyNodes m.currentReply.head a ∨
    ∃ node entry, m.mapNodes node = some entry ∧ Reaches m.replyNodes entry.data.2 a

omit [DecidableEq A] in
theorem Represents.wellLinked (h : m.Represents s c) : m.WellLinked where
  events := h.eventNodes.tailAtEnd
  currentReply := h.replyNodes.tailAtEnd
  pendingReplies := h.pendingNodes.tailAtEnd
  replies := h.mapNodes.tailAtEnd
  eventNodes a ha := h.eventNodes.reaches ha
  pendingNodes a ha := h.pendingNodes.reaches ha
  mapNodes a ha := h.mapNodes.reaches ha
  replyNodes a ha := by
    obtain ⟨list, hlist, hreach⟩ := h.replyNodes.owns.reaches ha
    rcases List.mem_cons.mp hlist with rfl | hlist
    · exact .inl hreach
    · obtain ⟨f, hf, rfl⟩ := List.mem_map.mp hlist
      obtain ⟨next, hnode⟩ := h.mapNodes.holds.segment.exists_next (List.mem_map_of_mem hf)
      exact .inr ⟨f.node, _, hnode, hreach⟩

/-- **The tails address the last links**, after all calls. What the calls return and leave in memory
is what they return and leave with lists, where appending is `++`; the map is a queue for each key;
and any further call ends. -/
theorem wellLinked_run {calls : List (ℕ × ListCall A β)} {answers : List (Answer β)}
    (h : init.run calls = some (answers, m)) :
    m.WellLinked ∧
      answers = ((XcbIn.init : XcbIn τ β).performAll (calls.map Prod.snd)).1 ∧
      (∃ s, m.Represents s ((XcbIn.init : XcbIn τ β).performAll (calls.map Prod.snd)).2 ∧
        QueuePerKey m.mapNodes m.replies (s.filed.map FiledReplies.entry)) ∧
      ∀ call : ListCall A β, call.Fresh m →
        ∃ n, ∀ fuel, n < fuel → ∃ r, m.perform fuel call = some r := by
  have hinit : (init : LinkedIn A β).Refines (XcbIn.init : XcbIn τ β) := ⟨_, represents_init⟩
  obtain ⟨hanswers, s, hs⟩ := run_refines hinit h
  refine ⟨hs.wellLinked, hanswers, ⟨s, hs, queuePerKey hs.mapNodes⟩, fun call hfresh => ?_⟩
  exact ⟨s.size, fun fuel hfuel => (hs.perform fuel call).ends ⟨hfresh, hfuel⟩⟩

/-- Two replies to one request, an event after them, and some of it taken out again. -/
def exampleCalls : List (ℕ × ListCall ℕ Unit) :=
  [(3, .expectReply 1 .none requestChecked 7),
    (3, .readPacket ⟨xcbReply, 1, ()⟩ false 1 2),
    (3, .readPacket ⟨xcbReply, 1, ()⟩ false 1 3),
    (3, .readPacket ⟨2, 2, ()⟩ false 1 2),
    (3, .pollForReply 1 5),
    (3, .insertPendingDiscard 1 4 8),
    (3, .discardReply 3 3 7),
    (3, .mapRemove 1),
    (3, .getEvent)]

theorem wellLinked_exampleCalls :
    ∃ m : LinkedIn ℕ Unit, init.run exampleCalls = some ([.done, .done, .done, .done,
      .reply (some (some ⟨⟨xcbReply, 1, ()⟩, none⟩)), .done, .done,
      .removed [⟨⟨xcbReply, 1, ()⟩, none⟩], .event (some ⟨⟨2, 2, ()⟩, some 2⟩)], m) ∧
        m.WellLinked := by
  have hanswers : ((init : LinkedIn ℕ Unit).run exampleCalls).map Prod.fst =
      some [.done, .done, .done, .done, .reply (some (some ⟨⟨xcbReply, 1, ()⟩, none⟩)), .done,
        .done, .removed [⟨⟨xcbReply, 1, ()⟩, none⟩], .event (some ⟨⟨2, 2, ()⟩, some 2⟩)] := by
    decide
  obtain ⟨⟨answers, m⟩, hrun, rfl⟩ := Option.map_eq_some_iff.mp hanswers
  exact ⟨m, hrun, (wellLinked_run (τ := Unit) hrun).1⟩

end LinkedIn

end Xcb
