import Mathlib.Data.List.Basic
import Mathlib.Data.List.Nodup
import Mathlib.Data.List.TakeWhile
import Mathlib.Logic.Function.Basic

/-!
# Linked lists with a pointer to the last link

Singly linked lists in a heap. A link is a pointer to the next node, and it has an address of its
own, its *place*: the head of the list or the `next` field of a node. A list keeps its head and the
place of its last link, where the next node is appended. Code that goes through a list by places can
insert and remove anywhere without a case for the head, and must set the tail when it touches the
last node.

The functions are programs with pointers: `none` is a null pointer that is followed, an address that
is not allocated, a `malloc` at an address that is in use, or a walk that has not ended after `fuel`
steps.

## Main definitions

* `Linked.Heap`, `Linked.Place`, `Linked.Tailed` — nodes, addresses of links, lists
* `Linked.append`, `Linked.popWhile`, `Linked.seek`, `Linked.insertAt`, `Linked.unlink` — the
  programs
* `Linked.Segment` — the nodes between two pointers
* `Linked.Holds` — what is in a list, and that its tail is the place of the last link
* `Linked.Owns`, `Linked.Stores` — the lists a heap consists of
* `Linked.Meets` — what a program returns, and when it returns

## Main results

* `Linked.Stores.append`, `Linked.Stores.popWhile`, `Linked.Stores.insertAt`,
  `Linked.Stores.unlink` — each program keeps the tail, and what it does to the contents and to the
  rest of the heap
* `Linked.Stores.seek` — where a walk stops
-/

namespace Linked

universe u

variable {A α : Type u}

/-! ### Heaps -/

/-- A node: its data, and the pointer to the next node. -/
structure Node (A α : Type u) where
  data : α
  next : Option A

/-- The nodes of one type. -/
abbrev Heap (A α : Type u) := A → Option (Node A α)

/-- The address of a link. -/
inductive Place (A : Type u)
  | head
  | next (a : A)
  deriving DecidableEq

/-- A list: its first link, and the place of its last one. -/
structure Tailed (A : Type u) where
  head : Option A
  tail : Place A
  deriving DecidableEq

/-- The empty list. -/
def Tailed.empty : Tailed A := ⟨none, .head⟩

/-- `*p`, in the list with this head. -/
def load (heap : Heap A α) (head : Option A) : Place A → Option (Option A)
  | .head => some head
  | .next a => (heap a).map Node.next

section programs

variable [DecidableEq A]

/-- `*p = link` -/
def store (heap : Heap A α) (head link : Option A) : Place A → Option (Heap A α × Option A)
  | .head => some (heap, link)
  | .next a => (heap a).map fun node =>
      (Function.update heap a (some { node with next := link }), head)

/-- `malloc`, when there is room at `a`. -/
def alloc (heap : Heap A α) (a : A) (node : Node A α) : Option (Heap A α) :=
  match heap a with
  | none => some (Function.update heap a (some node))
  | some _ => none

/-- `free` -/
def release (heap : Heap A α) (a : A) : Heap A α := Function.update heap a none

/-- Change the data of a node. -/
def modify (heap : Heap A α) (a : A) (f : α → α) : Option (Heap A α) :=
  (heap a).map fun node => Function.update heap a (some { node with data := f node.data })

/-! ### Programs -/

/-- `*tail = a; tail = &a->next` -/
def append (heap : Heap A α) (l : Tailed A) (a : A) (data : α) : Option (Heap A α × Tailed A) := do
  let heap ← alloc heap a ⟨data, none⟩
  let (heap, head) ← store heap l.head (some a) l.tail
  return (heap, ⟨head, .next a⟩)

/-- Take the first node out, which is at `a`. -/
def pop (heap : Heap A α) (l : Tailed A) (a : A) : Option (α × Heap A α × Tailed A) :=
  (heap a).map fun node =>
    (node.data, release heap a, ⟨node.next, if node.next.isNone then .head else l.tail⟩)

/-- `while(head && p(head))` take the first node out. -/
def popWhile (p : α → Bool) : ℕ → Heap A α → Tailed A → Option (Heap A α × Tailed A)
  | 0, _, _ => none
  | fuel + 1, heap, l =>
    match l.head with
    | none => some (heap, l)
    | some a => do
      let node ← heap a
      if p node.data then
        let (_, heap, l) ← pop heap l a
        popWhile p fuel heap l
      else return (heap, l)

/-- `for(place = &head; *place; place = &(*place)->next) if(stop(*place)) break` -/
def seek (stop : α → Bool) : ℕ → Heap A α → Option A → Place A → Option (Place A)
  | 0, _, _, _ => none
  | fuel + 1, heap, head, place => do
    match ← load heap head place with
    | none => return place
    | some a =>
      let node ← heap a
      if stop node.data then return place else seek stop fuel heap head (.next a)

/-- Go through `n` links, or to the last one. -/
def walk (heap : Heap A α) (head : Option A) : ℕ → Place A → Option (Place A)
  | 0, place => some place
  | n + 1, place => do
    match ← load heap head place with
    | none => return place
    | some a => walk heap head n (.next a)

/-- `a->next = *place; *place = a`, and the tail when the node is the last one. -/
def insertAt (heap : Heap A α) (l : Tailed A) (place : Place A) (a : A) (data : α) :
    Option (Heap A α × Tailed A) := do
  let next ← load heap l.head place
  let heap ← alloc heap a ⟨data, next⟩
  let (heap, head) ← store heap l.head (some a) place
  return (heap, ⟨head, if next.isNone then .next a else l.tail⟩)

/-- `*place = (*place)->next`, and the tail when the node was the last one. The node is at `a`. -/
def unlink (heap : Heap A α) (l : Tailed A) (place : Place A) (a : A) :
    Option (α × Heap A α × Tailed A) := do
  let node ← heap a
  let (heap, head) ← store heap l.head node.next place
  return (node.data, release heap a, ⟨head, if node.next.isNone then place else l.tail⟩)

/-- `free` all nodes from a pointer on. The result is what was in them. -/
def freeAll : ℕ → Heap A α → Option A → Option (List α × Heap A α)
  | 0, _, _ => none
  | _ + 1, heap, none => some ([], heap)
  | fuel + 1, heap, some a => do
    let node ← heap a
    let (freed, heap) ← freeAll fuel (release heap a) node.next
    return (node.data :: freed, heap)

/-- Make a list of new nodes. -/
def build (heap : Heap A α) : List (A × α) → Option (Heap A α × Option A)
  | [] => some (heap, none)
  | (a, data) :: nodes => do
    let (heap, next) ← build heap nodes
    let heap ← alloc heap a ⟨data, next⟩
    return (heap, some a)

end programs

/-! ### Segments -/

/-- The nodes from pointer `p` to pointer `q`, with their addresses. -/
def Segment (heap : Heap A α) : Option A → List (A × α) → Option A → Prop
  | p, [], q => p = q
  | p, (a, data) :: nodes, q =>
    p = some a ∧ ∃ next, heap a = some ⟨data, next⟩ ∧ Segment heap next nodes q

/-- Where a list keeps these nodes. -/
def addresses (nodes : List (A × α)) : List A := nodes.map Prod.fst

/-- What is in them. -/
def contents (nodes : List (A × α)) : List α := nodes.map Prod.snd

/-- The place of the link behind these nodes. -/
def lastPlace (place : Place A) : List (A × α) → Place A
  | [] => place
  | (a, _) :: nodes => lastPlace (.next a) nodes

@[simp] theorem addresses_append (nodes nodes' : List (A × α)) :
    addresses (nodes ++ nodes') = addresses nodes ++ addresses nodes' :=
  List.map_append

@[simp] theorem addresses_cons (a : A) (data : α) (nodes : List (A × α)) :
    addresses ((a, data) :: nodes) = a :: addresses nodes := rfl

/-- A node that the links lead to. -/
def Reaches (heap : Heap A α) (p : Option A) (a : A) : Prop :=
  ∃ nodes q, Segment heap p nodes q ∧ a ∈ addresses nodes

/-- The tail is the place of the null pointer that ends the list. -/
def TailAtEnd (heap : Heap A α) (l : Tailed A) : Prop :=
  load heap l.head l.tail = some none ∧
    ∃ nodes, Segment heap l.head nodes none ∧ l.tail = lastPlace .head nodes

theorem lastPlace_append (place : Place A) (nodes nodes' : List (A × α)) :
    lastPlace place (nodes ++ nodes') = lastPlace (lastPlace place nodes) nodes' := by
  induction nodes generalizing place with
  | nil => rfl
  | cons node nodes ih => exact ih (.next node.1)

variable {heap heap' : Heap A α} {p q r : Option A} {a : A} {data : α}
  {nodes nodes' : List (A × α)}

theorem segment_append :
    Segment heap p (nodes ++ nodes') r ↔ ∃ q, Segment heap p nodes q ∧ Segment heap q nodes' r := by
  induction nodes generalizing p with
  | nil => exact ⟨fun h => ⟨p, rfl, h⟩, fun ⟨_, h, h'⟩ => h ▸ h'⟩
  | cons node nodes ih =>
    obtain ⟨a, data⟩ := node
    constructor
    · rintro ⟨hp, next, hnode, hrest⟩
      obtain ⟨q, hleft, hright⟩ := ih.mp hrest
      exact ⟨q, ⟨hp, next, hnode, hleft⟩, hright⟩
    · rintro ⟨q, ⟨hp, next, hnode, hleft⟩, hright⟩
      exact ⟨hp, next, hnode, ih.mpr ⟨q, hleft, hright⟩⟩

/-- Only the nodes themselves matter. -/
theorem Segment.congr (h : Segment heap p nodes q)
    (hheap : ∀ a ∈ addresses nodes, heap' a = heap a) : Segment heap' p nodes q := by
  induction nodes generalizing p with
  | nil => exact h
  | cons node nodes ih =>
    obtain ⟨hp, next, hnode, hrest⟩ := h
    refine ⟨hp, next, (hheap _ List.mem_cons_self).trans hnode, ih hrest fun a ha => ?_⟩
    exact hheap a (List.mem_cons_of_mem _ ha)

theorem Segment.exists_next (h : Segment heap p nodes q) (ha : (a, data) ∈ nodes) :
    ∃ next, heap a = some ⟨data, next⟩ := by
  induction nodes generalizing p with
  | nil => cases ha
  | cons node nodes ih =>
    obtain ⟨-, next, hnode, hrest⟩ := h
    rcases List.mem_cons.mp ha with rfl | ha
    · exact ⟨next, hnode⟩
    · exact ih hrest ha

/-- They are all allocated. -/
theorem Segment.ne_none (h : Segment heap p nodes q) (ha : a ∈ addresses nodes) :
    heap a ≠ none := by
  obtain ⟨node, hnode, rfl⟩ := List.mem_map.mp ha
  obtain ⟨next, hsome⟩ := h.exists_next hnode
  rw [hsome]
  exact Option.some_ne_none _

theorem Segment.load_lastPlace (h : Segment heap p nodes q) :
    load heap p (lastPlace .head nodes) = some q := by
  rcases List.eq_nil_or_concat nodes with rfl | ⟨before, ⟨a, data⟩, rfl⟩
  · exact congrArg some h
  · rw [List.concat_eq_append] at h ⊢
    obtain ⟨r, -, -, next, hnode, hnext⟩ := segment_append.mp h
    rw [lastPlace_append]
    show (heap a).map Node.next = some q
    rw [hnode, ← hnext]
    rfl

/-- A list of nodes that is not empty has its last link in itself. -/
theorem lastPlace_of_ne_nil (h : nodes ≠ []) (place place' : Place A) :
    lastPlace place nodes = lastPlace place' nodes := by
  cases nodes with
  | nil => exact absurd rfl h
  | cons node nodes => rfl

/-- A segment that ends with a null pointer is empty when it begins with one. -/
theorem Segment.isNone_iff (h : Segment heap p nodes none) : p.isNone = true ↔ nodes = [] := by
  cases nodes with
  | nil => exact iff_of_true (by rw [show p = none from h]; rfl) rfl
  | cons node nodes => exact iff_of_false (by rw [h.1]; exact Bool.false_ne_true) nofun

section edits

variable [DecidableEq A]

theorem alloc_eq (h : heap a = none) (node : Node A α) :
    alloc heap a node = some (Function.update heap a (some node)) := by
  rw [alloc, h]

theorem alloc_eq_none (h : heap a ≠ none) (node : Node A α) : alloc heap a node = none := by
  obtain ⟨used, hused⟩ := Option.ne_none_iff_exists'.mp h
  rw [alloc, hused]

/-- Writing to the link behind some nodes. -/
theorem Segment.store (h : Segment heap p nodes q) (hnodup : (addresses nodes).Nodup)
    (link : Option A) :
    ∃ heap' p', Linked.store heap p link (lastPlace .head nodes) = some (heap', p') ∧
      Segment heap' p' nodes link ∧ ∀ b ∉ addresses nodes, heap' b = heap b := by
  rcases List.eq_nil_or_concat nodes with rfl | ⟨before, ⟨a, data⟩, rfl⟩
  · exact ⟨heap, link, rfl, rfl, fun _ _ => rfl⟩
  · rw [List.concat_eq_append] at h hnodup ⊢
    obtain ⟨r, hbefore, hr, next, hnode, hnext⟩ := segment_append.mp h
    rw [addresses_append, List.nodup_append] at hnodup
    have hnot : a ∉ addresses before :=
      fun ha => hnodup.2.2 a ha a List.mem_cons_self rfl
    refine ⟨Function.update heap a (some ⟨data, link⟩), p, ?_, segment_append.mpr ⟨r, ?_, ?_⟩, ?_⟩
    · rw [lastPlace_append]
      show (heap a).map _ = _
      rw [hnode]
      rfl
    · refine hbefore.congr fun b hb => Function.update_of_ne ?_ _ _
      rintro rfl
      exact hnot hb
    · exact ⟨hr, link, Function.update_self .., rfl⟩
    · intro b hb
      refine Function.update_of_ne ?_ _ _
      rintro rfl
      exact hb (by simp)

/-- A new node is linked in between two segments. -/
theorem Segment.linkIn (h : Segment heap p nodes r) (hrest : Segment heap r nodes' q)
    (hnodup : (addresses (nodes ++ nodes')).Nodup) (ha : heap a = none) (data : α) :
    ∃ heap' p', Linked.store (Function.update heap a (some ⟨data, r⟩)) p (some a)
        (lastPlace .head nodes) = some (heap', p') ∧
      Segment heap' p' (nodes ++ (a, data) :: nodes') q ∧
        ∀ b, b ≠ a → b ∉ addresses nodes → heap' b = heap b := by
  rw [addresses_append, List.nodup_append] at hnodup
  obtain ⟨hleft, -, hdisjoint⟩ := hnodup
  have hne : ∀ {nodes : List (A × α)} {p q}, Segment heap p nodes q → ∀ b ∈ addresses nodes,
      Function.update heap a (some ⟨data, r⟩) b = heap b := by
    intro nodes p q hsegment b hb
    refine Function.update_of_ne ?_ _ _
    rintro rfl
    exact hsegment.ne_none hb ha
  obtain ⟨heap', p', hstore, hsegment, hframe⟩ :=
    (h.congr (hne h)).store hleft (some a)
  have hnot : a ∉ addresses nodes := fun hmem => h.ne_none hmem ha
  refine ⟨heap', p', hstore, segment_append.mpr ⟨some a, hsegment, rfl, r, ?_, ?_⟩, ?_⟩
  · rw [hframe a hnot, Function.update_self]
  · refine hrest.congr fun b hb => ?_
    have hb' : b ∉ addresses nodes := fun hmem => hdisjoint b hmem b hb rfl
    rw [hframe b hb', hne hrest b hb]
  · intro b hba hb
    rw [hframe b hb, Function.update_of_ne hba]

/-! ### Lists -/

/-- What a list holds, with its tail at the last link. -/
structure Holds (heap : Heap A α) (l : Tailed A) (nodes : List (A × α)) : Prop where
  segment : Segment heap l.head nodes none
  nodup : (addresses nodes).Nodup
  tail : l.tail = lastPlace .head nodes

variable {l : Tailed A}

omit [DecidableEq A] in
/-- **The tail** is the place of the null pointer at the end of the list. -/
theorem Holds.load_tail (h : Holds heap l nodes) : load heap l.head l.tail = some none := by
  rw [h.tail]
  exact h.segment.load_lastPlace

omit [DecidableEq A] in
theorem nodup_addresses_insert {before after : List (A × α)}
    (h : (addresses (before ++ after)).Nodup) (ha : a ∉ addresses (before ++ after)) (data : α) :
    (addresses (before ++ (a, data) :: after)).Nodup := by
  rw [addresses_append] at h ha ⊢
  exact List.nodup_middle.mpr (List.nodup_cons.mpr ⟨ha, h⟩)

/-- **Appending** puts the node behind all others. -/
theorem Holds.append (h : Holds heap l nodes) (ha : heap a = none) (data : α) :
    ∃ heap' l', Linked.append heap l a data = some (heap', l') ∧
      Holds heap' l' (nodes ++ [(a, data)]) ∧
        ∀ b, b ≠ a → b ∉ addresses nodes → heap' b = heap b := by
  have hnodup : (addresses (nodes ++ [])).Nodup := by
    rw [List.append_nil]
    exact h.nodup
  obtain ⟨heap', head, hstore, hsegment, hframe⟩ :=
    h.segment.linkIn (show Segment heap none [] none from rfl) hnodup ha data
  refine ⟨heap', ⟨head, .next a⟩, ?_, ⟨hsegment, ?_, ?_⟩, hframe⟩
  · rw [Linked.append, alloc_eq ha, h.tail]
    show (Linked.store _ _ _ _ >>= _) = _
    rw [hstore]
    rfl
  · refine nodup_addresses_insert hnodup (fun hmem => ?_) data
    rw [List.append_nil] at hmem
    exact h.segment.ne_none hmem ha
  · rw [lastPlace_append]
    rfl

/-- **Inserting** behind any number of nodes. -/
theorem Holds.insertAt {before after : List (A × α)} (h : Holds heap l (before ++ after))
    (ha : heap a = none) (data : α) :
    ∃ heap' l', Linked.insertAt heap l (lastPlace .head before) a data = some (heap', l') ∧
      Holds heap' l' (before ++ (a, data) :: after) ∧
        ∀ b, b ≠ a → b ∉ addresses before → heap' b = heap b := by
  obtain ⟨r, hbefore, hafter⟩ := segment_append.mp h.segment
  obtain ⟨heap', head, hstore, hsegment, hframe⟩ := hbefore.linkIn hafter h.nodup ha data
  refine ⟨heap', ⟨head, if r.isNone then .next a else l.tail⟩, ?_, ⟨hsegment, ?_, ?_⟩, hframe⟩
  · rw [Linked.insertAt, hbefore.load_lastPlace]
    show (alloc heap a ⟨data, r⟩ >>= _) = _
    rw [alloc_eq ha]
    show (Linked.store _ _ _ _ >>= _) = _
    rw [hstore]
    rfl
  · exact nodup_addresses_insert h.nodup (fun hmem => h.segment.ne_none hmem ha) data
  · rw [lastPlace_append]
    show (if r.isNone then _ else _) = lastPlace (.next a) after
    by_cases hlast : after = []
    · rw [if_pos (hafter.isNone_iff.mpr hlast), hlast]
      rfl
    · rw [if_neg fun hnone => hlast (hafter.isNone_iff.mp hnone), h.tail, lastPlace_append]
      exact lastPlace_of_ne_nil hlast _ _

/-- **Removing** the node behind any number of nodes. -/
theorem Holds.unlink {before after : List (A × α)}
    (h : Holds heap l (before ++ (a, data) :: after)) :
    load heap l.head (lastPlace .head before) = some (some a) ∧
      ∃ heap' l', Linked.unlink heap l (lastPlace .head before) a = some (data, heap', l') ∧
        Holds heap' l' (before ++ after) ∧ heap' a = none ∧
          ∀ b, b ≠ a → b ∉ addresses before → heap' b = heap b := by
  obtain ⟨_, hbefore, rfl, next, hnode, hafter⟩ := segment_append.mp h.segment
  have hnodup := h.nodup
  rw [addresses_append, addresses_cons, List.nodup_middle, List.nodup_cons] at hnodup
  obtain ⟨hnot, hnodup⟩ := hnodup
  rw [List.mem_append, not_or] at hnot
  have hleft := (List.nodup_append.mp hnodup).1
  have hdisjoint := (List.nodup_append.mp hnodup).2.2
  obtain ⟨heap', head, hstore, hsegment, hframe⟩ := hbefore.store hleft next
  have hrelease : ∀ b, b ≠ a → release heap' a b = heap' b := fun b hb =>
    Function.update_of_ne hb _ _
  refine ⟨hbefore.load_lastPlace, release heap' a,
    ⟨head, if next.isNone then lastPlace .head before else l.tail⟩, ?_, ⟨?_, ?_, ?_⟩,
    Function.update_self .., fun b hba hb => (hrelease b hba).trans (hframe b hb)⟩
  · rw [Linked.unlink, hnode]
    show (Linked.store _ _ _ _ >>= _) = _
    rw [hstore]
    rfl
  · refine segment_append.mpr ⟨next, hsegment.congr fun b hb => ?_, hafter.congr fun b hb => ?_⟩
    · exact hrelease b fun hba => hnot.1 (hba ▸ hb)
    · rw [hrelease b fun hba => hnot.2 (hba ▸ hb)]
      exact hframe b fun hmem => hdisjoint b hmem b hb rfl
  · rw [addresses_append]
    exact hnodup
  · show (if next.isNone then _ else _) = _
    rw [lastPlace_append]
    by_cases hlast : after = []
    · rw [if_pos (hafter.isNone_iff.mpr hlast), hlast]
      rfl
    · rw [if_neg fun hnone => hlast (hafter.isNone_iff.mp hnone), h.tail, lastPlace_append]
      exact lastPlace_of_ne_nil hlast _ _

/-- **Changing** the data of a node moves nothing. -/
theorem Holds.modify {before after : List (A × α)}
    (h : Holds heap l (before ++ (a, data) :: after)) (f : α → α) :
    ∃ heap', Linked.modify heap a f = some heap' ∧
      Holds heap' l (before ++ (a, f data) :: after) ∧ ∀ b, b ≠ a → heap' b = heap b := by
  obtain ⟨_, hbefore, rfl, next, hnode, hafter⟩ := segment_append.mp h.segment
  have hnodup := h.nodup
  rw [addresses_append, addresses_cons, List.nodup_middle, List.nodup_cons, List.mem_append,
    not_or] at hnodup
  obtain ⟨⟨hleft, hright⟩, -⟩ := hnodup
  have hframe : ∀ b, b ≠ a →
      Function.update heap a (some ⟨f data, next⟩) b = heap b := fun b hb =>
    Function.update_of_ne hb _ _
  refine ⟨Function.update heap a (some ⟨f data, next⟩), ?_, ⟨?_, ?_, ?_⟩, hframe⟩
  · rw [Linked.modify, hnode]
    rfl
  · refine segment_append.mpr ⟨some a, ?_, rfl, next, Function.update_self .., ?_⟩
    · exact hbefore.congr fun b hb => hframe b fun hba => hleft (hba ▸ hb)
    · exact hafter.congr fun b hb => hframe b fun hba => hright (hba ▸ hb)
  · have hsame := h.nodup
    rw [addresses_append] at hsame ⊢
    exact hsame
  · rw [h.tail, lastPlace_append, lastPlace_append]
    rfl

end edits

/-! ### Walks

A walk ends, and its result does not depend on the fuel. -/

/-- **A walk** stops at the first node that it looks for, or at the end. -/
theorem Segment.seek {head : Option A} {before : List (A × α)}
    (h : Segment heap head (before ++ nodes) none) (stop : α → Bool) (fuel : ℕ) :
    seek stop fuel heap head (lastPlace .head before) =
      if (nodes.takeWhile fun node => !stop node.2).length < fuel then
        some (lastPlace .head (before ++ nodes.takeWhile fun node => !stop node.2))
      else none := by
  induction nodes generalizing before fuel with
  | nil =>
    rw [List.append_nil] at h
    cases fuel with
    | zero => rfl
    | succ fuel => simp [Linked.seek, h.load_lastPlace]
  | cons node nodes ih =>
    obtain ⟨a, data⟩ := node
    obtain ⟨_, hbefore, rfl, next, hnode, hrest⟩ := segment_append.mp h
    cases fuel with
    | zero => rfl
    | succ fuel =>
      cases hstop : stop data with
      | true => simp [Linked.seek, hbefore.load_lastPlace, hnode, hstop]
      | false =>
        have hnext : lastPlace .head (before ++ [(a, data)]) = .next a := by
          rw [lastPlace_append]
          rfl
        have hfull : Segment heap head ((before ++ [(a, data)]) ++ nodes) none := by simpa using h
        have hwalk := ih hfull fuel
        rw [hnext] at hwalk
        simp [Linked.seek, hbefore.load_lastPlace, hnode, hstop, hwalk]

theorem Segment.walk {head : Option A} {before : List (A × α)}
    (h : Segment heap head (before ++ nodes) none) (n : ℕ) :
    walk heap head n (lastPlace .head before) =
      some (lastPlace .head (before ++ nodes.take n)) := by
  induction n generalizing before nodes with
  | zero => rw [List.take_zero, List.append_nil]; rfl
  | succ n ih =>
    obtain ⟨q, hbefore, hnodes⟩ := segment_append.mp h
    rw [Linked.walk, hbefore.load_lastPlace]
    cases nodes with
    | nil =>
      obtain rfl : q = none := hnodes
      rw [List.take_nil, List.append_nil]
      rfl
    | cons node nodes =>
      obtain ⟨a, data⟩ := node
      obtain ⟨rfl, -⟩ := hnodes
      have hfull : Segment heap head ((before ++ [(a, data)]) ++ nodes) none := by simpa using h
      have hnext := ih hfull
      rw [lastPlace_append, List.append_assoc] at hnext
      exact hnext

/-! ### Programs that may fail -/

section Meets

variable {ρ σ : Type u} {able able' : Prop} {x : Option ρ} {r : ρ} {P Q : ρ → Prop} {R : σ → Prop}

/-- What a program with pointers does: it has a result when `able`, and each result has `P`. -/
structure Meets (able : Prop) (x : Option ρ) (P : ρ → Prop) : Prop where
  ends : able → ∃ r, x = some r
  spec : ∀ r, x = some r → P r

theorem Meets.of_eq (hx : x = some r) (h : P r) : Meets able x P :=
  ⟨fun _ => ⟨r, hx⟩, fun _ hr => Option.some.inj (hx.symm.trans hr) ▸ h⟩

theorem Meets.imp (h : Meets able x P) (hable : able' → able) (himp : ∀ r, P r → Q r) :
    Meets able' x Q :=
  ⟨fun ha => h.ends (hable ha), fun r hr => himp r (h.spec r hr)⟩

/-- One program after the other. -/
theorem Meets.bind {f : ρ → Option σ} (h : Meets able x P)
    (hf : ∀ r, P r → Meets able (f r) R) : Meets able (x >>= f) R := by
  refine ⟨fun hable => ?_, fun r hr => ?_⟩
  · obtain ⟨r, hx⟩ := h.ends hable
    rw [hx]
    exact (hf r (h.spec r hx)).ends hable
  · obtain ⟨r', hx, hr'⟩ := Option.bind_eq_some_iff.mp hr
    exact (hf r' (h.spec r' hx)).spec r hr'

/-- A loop that ends after `n` steps. -/
theorem Meets.of_fuel {n fuel : ℕ} (hx : x = if n < fuel then some r else none)
    (hn : able → n < fuel) (h : P r) : Meets able x P := by
  refine ⟨fun hable => ⟨r, hx.trans (if_pos (hn hable))⟩, fun r' hr => ?_⟩
  rw [hx] at hr
  split at hr
  · exact Option.some.inj hr ▸ h
  · exact absurd hr nofun

/-- A program that begins with a `malloc`. -/
theorem Meets.of_malloc (hfree : heap a = none → ∃ r, x = some r ∧ P r)
    (hused : heap a ≠ none → x = none) : Meets (heap a = none) x P := by
  refine ⟨fun ha => (hfree ha).imp fun _ => And.left, fun r hr => ?_⟩
  by_cases ha : heap a = none
  · obtain ⟨r', hx, h⟩ := hfree ha
    exact Option.some.inj (hx.symm.trans hr) ▸ h
  · exact absurd ((hused ha).symm.trans hr) nofun

theorem Meets.alloc [DecidableEq A] (heap : Heap A α) (a : A) (node : Node A α) :
    Meets (heap a = none) (Linked.alloc heap a node) fun heap' =>
      heap a = none ∧ heap' = Function.update heap a (some node) :=
  .of_malloc (fun ha => ⟨_, alloc_eq ha node, ha, rfl⟩) fun ha => alloc_eq_none ha node

end Meets

/-! ### Heaps without leaks

A heap with some lists, which share no nodes, and with no other nodes. -/

/-- The nodes of these lists. -/
def allAddresses (lists : List (Option A × List (A × α))) : List A :=
  lists.flatMap fun list => addresses list.2

@[simp] theorem allAddresses_cons (p : Option A) (nodes : List (A × α))
    (lists : List (Option A × List (A × α))) :
    allAddresses ((p, nodes) :: lists) = addresses nodes ++ allAddresses lists := rfl

/-- The heap holds these lists, and nothing else. -/
structure Owns (heap : Heap A α) (lists : List (Option A × List (A × α))) : Prop where
  segments : ∀ list ∈ lists, Segment heap list.1 list.2 none
  nodup : (allAddresses lists).Nodup
  only : ∀ a, heap a ≠ none → a ∈ allAddresses lists

namespace Owns

variable {lists lists' : List (Option A × List (A × α))}

theorem empty : Owns (fun _ => none : Heap A α) [] := ⟨nofun, .nil, fun _ h => absurd rfl h⟩

/-- Free memory is what no list has. -/
theorem eq_none_iff (h : Owns heap lists) : heap a = none ↔ a ∉ allAddresses lists := by
  constructor
  · intro hnone hmem
    obtain ⟨list, hlist, ha⟩ := List.mem_flatMap.mp hmem
    exact (h.segments list hlist).ne_none ha hnone
  · intro hnot
    by_contra hsome
    exact hnot (h.only a hsome)

theorem perm (h : Owns heap lists) (hperm : lists.Perm lists') : Owns heap lists' := by
  have haddresses : (allAddresses lists).Perm (allAddresses lists') := hperm.flatMap_right _
  refine ⟨fun list hlist => h.segments list (hperm.mem_iff.mpr hlist),
    haddresses.nodup_iff.mp h.nodup, fun a ha => haddresses.mem_iff.mp (h.only a ha)⟩

/-- **Nothing is lost.** -/
theorem reaches (h : Owns heap lists) (ha : heap a ≠ none) :
    ∃ list ∈ lists, Reaches heap list.1 a := by
  obtain ⟨list, hlist, hmem⟩ := List.mem_flatMap.mp (h.only a ha)
  exact ⟨list, hlist, list.2, none, h.segments list hlist, hmem⟩

/-- A list without nodes is a null pointer. -/
theorem cons_nil_iff : Owns heap ((p, []) :: lists) ↔ p = none ∧ Owns heap lists := by
  constructor
  · intro h
    exact ⟨h.segments _ List.mem_cons_self,
      fun list hlist => h.segments list (List.mem_cons_of_mem _ hlist), h.nodup, h.only⟩
  · rintro ⟨rfl, h⟩
    exact ⟨List.forall_mem_cons.mpr ⟨rfl, h.segments⟩, h.nodup, h.only⟩

/-- What an edit of one list does to the heap as a whole. -/
theorem edit (h : Owns heap ((p, nodes) :: lists)) (hsegment : Segment heap' q nodes' none)
    (hnodup' : (addresses nodes').Nodup)
    (hnew : ∀ a ∈ addresses nodes', a ∈ addresses nodes ∨ heap a = none)
    (hkept : ∀ a, a ∉ addresses nodes → a ∉ addresses nodes' → heap' a = heap a)
    (hfreed : ∀ a ∈ addresses nodes, a ∉ addresses nodes' → heap' a = none) :
    Owns heap' ((q, nodes') :: lists) := by
  obtain ⟨-, hnodup, hdisjoint⟩ := List.nodup_append.mp h.nodup
  have hother : ∀ a ∈ allAddresses lists, a ∉ addresses nodes ∧ a ∉ addresses nodes' := by
    intro a ha
    have hnodes : a ∉ addresses nodes := fun hmem => hdisjoint a hmem a ha rfl
    refine ⟨hnodes, fun hmem => ?_⟩
    rcases hnew a hmem with hold | hnone
    · exact hnodes hold
    · exact h.eq_none_iff.mp hnone (List.mem_append_right _ ha)
  refine ⟨List.forall_mem_cons.mpr ⟨hsegment, fun list hlist => ?_⟩, ?_, fun a ha => ?_⟩
  · refine (h.segments list (List.mem_cons_of_mem _ hlist)).congr fun a ha => ?_
    have hnot := hother a (List.mem_flatMap.mpr ⟨list, hlist, ha⟩)
    exact hkept a hnot.1 hnot.2
  · refine List.nodup_append.mpr ⟨hnodup', hnodup, fun a hnew b hold hab => ?_⟩
    exact (hother b hold).2 (hab ▸ hnew)
  · rw [allAddresses_cons, List.mem_append]
    by_cases hnodes' : a ∈ addresses nodes'
    · exact .inl hnodes'
    · have hnodes : a ∉ addresses nodes := fun hmem => ha (hfreed a hmem hnodes')
      rw [hkept a hnodes hnodes'] at ha
      exact .inr ((List.mem_append.mp (h.only a ha)).resolve_left hnodes)

variable [DecidableEq A]

/-- **Freeing** the first node of a list. -/
theorem releaseHead (h : Owns heap ((p, (a, data) :: nodes) :: lists)) :
    p = some a ∧ ∃ next, heap a = some ⟨data, next⟩ ∧ (next = none ↔ nodes = []) ∧
      Owns (release heap a) ((next, nodes) :: lists) := by
  obtain ⟨hp, next, hnode, hrest⟩ := h.segments _ List.mem_cons_self
  have hnodup : a ∉ addresses nodes ∧ (addresses nodes).Nodup :=
    List.nodup_cons.mp (List.nodup_append.mp h.nodup).1
  have hframe : ∀ b, b ≠ a → release heap a b = heap b := fun b hb => Function.update_of_ne hb _ _
  have hnull : next = none ↔ nodes = [] := Option.isNone_iff_eq_none.symm.trans hrest.isNone_iff
  refine ⟨hp, next, hnode, hnull, h.edit (hrest.congr fun b hb => hframe b ?_) hnodup.2
    (fun b hb => .inl (List.mem_cons_of_mem a hb)) (fun b hb _ => hframe b ?_) fun b hb hb' => ?_⟩
  · rintro rfl
    exact hnodup.1 hb
  · rintro rfl
    exact hb List.mem_cons_self
  · rw [(List.mem_cons.mp hb).resolve_right hb']
    exact Function.update_self ..

/-- **Freeing** a list. -/
theorem freeAll (h : Owns heap ((p, nodes) :: lists)) (fuel : ℕ) :
    Meets (nodes.length < fuel) (Linked.freeAll fuel heap p) fun r =>
      r.1 = contents nodes ∧ Owns r.2 lists := by
  induction nodes generalizing heap p fuel with
  | nil =>
    obtain ⟨rfl, hlists⟩ := cons_nil_iff.mp h
    cases fuel with
    | zero => exact ⟨fun hlt => absurd hlt (Nat.lt_irrefl 0), nofun⟩
    | succ fuel => exact .of_eq rfl ⟨rfl, hlists⟩
  | cons node nodes ih =>
    obtain ⟨a, data⟩ := node
    obtain ⟨rfl, next, hnode, -, hrest⟩ := h.releaseHead
    cases fuel with
    | zero => exact ⟨fun hlt => absurd hlt (Nat.not_lt_zero _), nofun⟩
    | succ fuel =>
      rw [Linked.freeAll]
      refine (Meets.of_eq (P := fun node => node = ⟨data, next⟩) hnode rfl).bind ?_
      rintro _ rfl
      refine ((ih hrest fuel).imp Nat.lt_of_succ_lt_succ fun _ => id).bind ?_
      rintro ⟨freed, heap'⟩ ⟨hfreed, hlists⟩
      exact .of_eq rfl ⟨congrArg (data :: ·) hfreed, hlists⟩

/-- A new node in front of a list. -/
theorem allocHead (h : Owns heap ((p, nodes) :: lists)) (ha : heap a = none) (data : α) :
    Owns (Function.update heap a (some ⟨data, p⟩)) ((some a, (a, data) :: nodes) :: lists) := by
  have hsegment : Segment heap p nodes none := h.segments _ List.mem_cons_self
  have hnot : a ∉ addresses nodes := fun hmem => hsegment.ne_none hmem ha
  refine h.edit ⟨rfl, p, Function.update_self .., hsegment.congr fun b hb => ?_⟩
    (List.nodup_cons.mpr ⟨hnot, (List.nodup_append.mp h.nodup).1⟩) (fun b hb => ?_)
    (fun b _ hb => ?_) fun b hb hb' => absurd (List.mem_cons_of_mem a hb) hb'
  · refine Function.update_of_ne ?_ _ _
    rintro rfl
    exact hnot hb
  · rcases List.mem_cons.mp hb with rfl | hb
    · exact .inr ha
    · exact .inl hb
  · refine Function.update_of_ne ?_ _ _
    rintro rfl
    exact hb List.mem_cons_self

/-- **Making** a list. -/
theorem build (h : Owns heap lists) (nodes : List (A × α)) :
    Meets ((addresses nodes).Nodup ∧ ∀ a ∈ addresses nodes, heap a = none)
      (Linked.build heap nodes) fun r => Owns r.1 ((r.2, nodes) :: lists) := by
  induction nodes with
  | nil => exact .of_eq rfl (cons_nil_iff.mpr ⟨rfl, h⟩)
  | cons node nodes ih =>
    obtain ⟨a, data⟩ := node
    rw [Linked.build]
    refine (ih.imp ?_ fun _ => id).bind ?_
    · rintro ⟨hnodup, hfree⟩
      exact ⟨(List.nodup_cons.mp hnodup).2, fun b hb => hfree b (List.mem_cons_of_mem a hb)⟩
    rintro ⟨heap', next⟩ hbuilt
    refine ((Meets.alloc heap' a ⟨data, next⟩).imp ?_ fun _ => id).bind ?_
    · rintro ⟨hnodup, hfree⟩
      rw [hbuilt.eq_none_iff, allAddresses_cons, List.mem_append, not_or]
      exact ⟨(List.nodup_cons.mp hnodup).1, h.eq_none_iff.mp (hfree a List.mem_cons_self)⟩
    · rintro _ ⟨ha, rfl⟩
      exact .of_eq rfl (hbuilt.allocHead ha data)

end Owns

/-! ### A list with a tail, and others -/

/-- The heap holds a list with its tail at the last link, some other lists, and nothing else. -/
structure Stores (heap : Heap A α) (l : Tailed A) (nodes : List (A × α))
    (lists : List (Option A × List (A × α))) : Prop where
  owns : Owns heap ((l.head, nodes) :: lists)
  tail : l.tail = lastPlace .head nodes

namespace Stores

variable {l l' : Tailed A} {lists lists' : List (Option A × List (A × α))}

theorem empty : Stores (fun _ => none : Heap A α) Tailed.empty [] [] :=
  ⟨Owns.cons_nil_iff.mpr ⟨rfl, Owns.empty⟩, rfl⟩

theorem holds (h : Stores heap l nodes lists) : Holds heap l nodes :=
  ⟨h.owns.segments _ List.mem_cons_self, (List.nodup_append.mp h.owns.nodup).1, h.tail⟩

theorem edit (h : Stores heap l nodes lists) (hlist : Holds heap' l' nodes')
    (hnew : ∀ a ∈ addresses nodes', a ∈ addresses nodes ∨ heap a = none)
    (hkept : ∀ a, a ∉ addresses nodes → a ∉ addresses nodes' → heap' a = heap a)
    (hfreed : ∀ a ∈ addresses nodes, a ∉ addresses nodes' → heap' a = none) :
    Stores heap' l' nodes' lists :=
  ⟨h.owns.edit hlist.segment hlist.nodup hnew hkept hfreed, hlist.tail⟩

theorem tailAtEnd (h : Stores heap l nodes lists) : TailAtEnd heap l :=
  ⟨h.holds.load_tail, nodes, h.holds.segment, h.tail⟩

/-- The only list there is. -/
theorem reaches (h : Stores heap l nodes []) (ha : heap a ≠ none) : Reaches heap l.head a := by
  obtain ⟨list, hlist, hreach⟩ := h.owns.reaches ha
  rwa [List.mem_singleton.mp hlist] at hreach

theorem head_eq_none_iff (h : Stores heap l nodes lists) : l.head = none ↔ nodes = [] :=
  Option.isNone_iff_eq_none.symm.trans h.holds.segment.isNone_iff

/-- The list is put with the others, and a new one is begun. -/
theorem file (h : Stores heap l nodes lists) :
    Stores heap Tailed.empty [] (lists ++ [(l.head, nodes)]) :=
  ⟨Owns.cons_nil_iff.mpr ⟨rfl, h.owns.perm (List.perm_append_singleton _ _).symm⟩, rfl⟩

/-- What happens to the other lists. -/
theorem others (h : Stores heap l nodes lists)
    (hlists : Owns heap' ((l.head, nodes) :: lists')) : Stores heap' l nodes lists' :=
  ⟨hlists, h.tail⟩

/-- **A walk** stops at the first node that it looks for, or at the end. -/
theorem seek (h : Stores heap l nodes lists) (stop : α → Bool) (fuel : ℕ) :
    Meets (nodes.length < fuel) (Linked.seek stop fuel heap l.head .head) fun place =>
      (∃ before a data after, nodes = before ++ (a, data) :: after ∧ stop data = true ∧
          (∀ node ∈ before, stop node.2 = false) ∧ place = lastPlace .head before) ∨
        (∀ node ∈ nodes, stop node.2 = false) ∧ place = lastPlace .head nodes := by
  have hsegment : Segment heap l.head ([] ++ nodes) none := h.holds.segment
  refine .of_fuel (hsegment.seek stop fuel)
    (Nat.lt_of_le_of_lt (List.takeWhile_sublist _).length_le) ?_
  have hsplit := List.takeWhile_append_dropWhile (p := fun node => !stop node.2) (l := nodes)
  have hbefore : ∀ node ∈ nodes.takeWhile (fun node => !stop node.2), stop node.2 = false :=
    fun node hnode => by simpa using List.mem_takeWhile_imp hnode
  cases hdrop : nodes.dropWhile (fun node => !stop node.2) with
  | nil =>
    rw [hdrop, List.append_nil] at hsplit
    rw [hsplit] at hbefore ⊢
    exact .inr ⟨hbefore, rfl⟩
  | cons node after =>
    have hstop := List.head?_dropWhile_not (fun node => !stop node.2) nodes
    rw [hdrop] at hsplit hstop
    exact .inl ⟨_, node.1, node.2, after, hsplit.symm, by simpa using hstop, hbefore, rfl⟩

theorem walk (h : Stores heap l nodes lists) (n : ℕ) :
    Linked.walk heap l.head n .head = some (lastPlace .head (nodes.take n)) := by
  have hsegment : Segment heap l.head ([] ++ nodes) none := h.holds.segment
  exact hsegment.walk n

variable [DecidableEq A]

/-- **Appending** -/
theorem append (h : Stores heap l nodes lists) (a : A) (data : α) :
    Meets (heap a = none) (Linked.append heap l a data) fun r =>
      Stores r.1 r.2 (nodes ++ [(a, data)]) lists := by
  refine .of_malloc (fun ha => ?_) fun ha => by rw [Linked.append, alloc_eq_none ha]; rfl
  obtain ⟨heap', l', happend, hlist, hframe⟩ := h.holds.append ha data
  refine ⟨_, happend, h.edit hlist (fun b hb => ?_) (fun b hb hb' => ?_) fun b hb hb' => ?_⟩
  · rw [addresses_append, List.mem_append] at hb
    rcases hb with hb | hb
    · exact .inl hb
    · exact .inr (List.mem_singleton.mp hb ▸ ha)
  · refine hframe b (fun hba => hb' ?_) hb
    rw [hba]
    simp
  · rw [addresses_append] at hb'
    exact absurd (List.mem_append_left _ hb) hb'

/-- **Inserting** -/
theorem insertAt {before after : List (A × α)} (h : Stores heap l (before ++ after) lists)
    (a : A) (data : α) :
    Meets (heap a = none) (Linked.insertAt heap l (lastPlace .head before) a data) fun r =>
      Stores r.1 r.2 (before ++ (a, data) :: after) lists := by
  refine .of_malloc (fun ha => ?_) fun ha => ?_
  · obtain ⟨heap', l', hinsert, hlist, hframe⟩ := h.holds.insertAt ha data
    have hmem : ∀ b, b ∈ addresses (before ++ (a, data) :: after) ↔
        b = a ∨ b ∈ addresses (before ++ after) := by
      intro b
      simp only [addresses_append, addresses_cons, List.mem_append, List.mem_cons]
      tauto
    refine ⟨_, hinsert, h.edit hlist (fun b hb => ?_) (fun b hb hb' => ?_) fun b hb hb' => ?_⟩
    · rcases (hmem b).mp hb with rfl | hb
      · exact .inr ha
      · exact .inl hb
    · refine hframe b (fun hba => hb' ((hmem b).mpr (.inl hba))) fun hleft => hb ?_
      rw [addresses_append]
      exact List.mem_append_left _ hleft
    · exact absurd ((hmem b).mpr (.inr hb)) hb'
  · obtain ⟨q, hbefore, -⟩ := segment_append.mp h.holds.segment
    rw [Linked.insertAt, hbefore.load_lastPlace]
    show (Linked.alloc heap a _ >>= _) = none
    rw [alloc_eq_none ha]
    rfl

/-- **Removing** -/
theorem unlink {before after : List (A × α)}
    (h : Stores heap l (before ++ (a, data) :: after) lists) :
    load heap l.head (lastPlace .head before) = some (some a) ∧
      ∃ heap' l', Linked.unlink heap l (lastPlace .head before) a = some (data, heap', l') ∧
        Stores heap' l' (before ++ after) lists := by
  obtain ⟨hload, heap', l', hunlink, hlist, hfree, hframe⟩ := h.holds.unlink
  have hmem : ∀ b, b ∈ addresses (before ++ (a, data) :: after) ↔
      b = a ∨ b ∈ addresses (before ++ after) := by
    intro b
    simp only [addresses_append, addresses_cons, List.mem_append, List.mem_cons]
    tauto
  refine ⟨hload, heap', l', hunlink,
    h.edit hlist (fun b hb => ?_) (fun b hb hb' => ?_) fun b hb hb' => ?_⟩
  · exact .inl ((hmem b).mpr (.inr hb))
  · refine hframe b (fun hba => hb ((hmem b).mpr (.inl hba))) fun hleft => hb' ?_
    rw [addresses_append]
    exact List.mem_append_left _ hleft
  · rcases (hmem b).mp hb with rfl | hb
    · exact hfree
    · exact absurd hb hb'

/-- **Changing** the data of a node. -/
theorem modify {before after : List (A × α)}
    (h : Stores heap l (before ++ (a, data) :: after) lists) (f : α → α) :
    ∃ heap', Linked.modify heap a f = some heap' ∧
      Stores heap' l (before ++ (a, f data) :: after) lists := by
  obtain ⟨heap', hmodify, hlist, hframe⟩ := h.holds.modify f
  have hsame : addresses (before ++ (a, f data) :: after) =
      addresses (before ++ (a, data) :: after) := by
    rw [addresses_append, addresses_append]
    rfl
  refine ⟨heap', hmodify, h.edit hlist (fun b hb => ?_) (fun b hb _ => ?_) fun b hb hb' => ?_⟩
  · exact .inl (hsame ▸ hb)
  · refine hframe b fun hba => hb ?_
    rw [hba]
    simp
  · exact absurd (hsame ▸ hb) hb'

/-- **Taking** the first node out. -/
theorem pop (h : Stores heap l ((a, data) :: nodes) lists) :
    l.head = some a ∧ ∃ l', Linked.pop heap l a = some (data, release heap a, l') ∧
      Stores (release heap a) l' nodes lists := by
  obtain ⟨hhead, next, hnode, hnull, howns⟩ := h.owns.releaseHead
  refine ⟨hhead, ⟨next, if next.isNone then .head else l.tail⟩, ?_, howns, ?_⟩
  · rw [Linked.pop, hnode]
    rfl
  · show (if next.isNone then _ else _) = _
    by_cases hlast : nodes = []
    · rw [if_pos (Option.isNone_iff_eq_none.mpr (hnull.mpr hlast)), hlast]
      rfl
    · rw [if_neg fun hnone => hlast (hnull.mp (Option.isNone_iff_eq_none.mp hnone)), h.tail]
      exact lastPlace_of_ne_nil hlast _ _

/-- **Taking nodes out** at the head while their data say so. -/
theorem popWhile (h : Stores heap l nodes lists) (p : α → Bool) (fuel : ℕ) :
    Meets (nodes.length < fuel) (Linked.popWhile p fuel heap l) fun r =>
      Stores r.1 r.2 (nodes.dropWhile fun node => p node.2) lists := by
  induction nodes generalizing heap l fuel with
  | nil =>
    have hhead : l.head = none := h.head_eq_none_iff.mpr rfl
    cases fuel with
    | zero => exact ⟨fun hlt => absurd hlt (Nat.lt_irrefl 0), nofun⟩
    | succ fuel => exact .of_eq (by rw [Linked.popWhile, hhead]) h
  | cons node nodes ih =>
    obtain ⟨a, data⟩ := node
    obtain ⟨hhead, l', hpop, hrest⟩ := h.pop
    obtain ⟨-, next, hnode, -⟩ := h.owns.releaseHead
    cases fuel with
    | zero => exact ⟨fun hlt => absurd hlt (Nat.not_lt_zero _), nofun⟩
    | succ fuel =>
      cases hp : p data with
      | false =>
        rw [List.dropWhile_cons_of_neg (by simp [hp])]
        exact .of_eq (r := (heap, l)) (by simp [Linked.popWhile, hhead, hnode, hp]) h
      | true =>
        have hloop : Linked.popWhile p (fuel + 1) heap l =
            Linked.popWhile p fuel (release heap a) l' := by
          simp [Linked.popWhile, hhead, hnode, hp, hpop]
        rw [hloop, List.dropWhile_cons_of_pos (by simp [hp])]
        exact (ih hrest fuel).imp Nat.lt_of_succ_lt_succ fun _ => id

end Stores

end Linked
