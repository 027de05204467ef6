import Xcb.Expression
import Mathlib.Tactic.Ring

/-!
# Generated views of a list

For a list in a packet, `c_client.py` writes a function that gives its start, one that gives its
length, and either one that gives its end, if the elements are simple, or one that gives an
iterator. The end is where the next list begins, after padding and the fields of fixed size in
between. Each of these functions has a formula of its own for that.

Positions are in bytes from `R`, the start of the container.

## Main definitions

* `Container.listFields` — `_c_type_setup`, for the lists
* `ListField.accessor`, `ListField.length`, `ListField.iterator` — `_c_accessors_list`
* `ListField.getEnd` — `_c_iterator_get_end`
* `ListField.Agrees` — the three views of a list are of the same bytes

## Main results

* `Container.agrees_iff` — the containers and lengths for which they do
* `Container.not_agrees_words` — words after a name
-/

namespace Xcb.CClient

/-! ### Containers -/

/-- The elements of a list: the `sizeof` of their type, and whether that is simple. -/
structure Element where
  size : ℕ
  isSimple : Bool
  pos : 0 < size
  deriving DecidableEq, Repr

/-- A field of a container: the `sizeof` of its C type and the size the description gives, or a list
of variable length. -/
inductive ContainerField
  | fixed (sizeofType : ℕ) (size : ℕ)
  | list (element : Element) (expr : Expression)
  deriving DecidableEq, Repr

/-- The `sizeof` of `type.c_type`. -/
def ContainerField.sizeofType : ContainerField → ℕ
  | .fixed sizeofType _ => sizeofType
  | .list element _ => element.size

/-- A list, with what `_c_type_setup` finds out about it: `prev_varsized_field`,
`first_field_after_varsized` (of which only the `sizeof` matters) and `prev_varsized_offset`. -/
inductive ListField
  | first (element : Element) (expr : Expression)
  | after (prev : ListField) (sizeofFirst : ℕ) (offset : ℕ) (element : Element)
      (expr : Expression)
  deriving DecidableEq, Repr

/-- The variables of `_c_type_setup`, and the lists so far, the last one first. -/
structure TypeSetup where
  prevVarsizedField : Option ListField
  prevVarsizedOffset : ℕ
  sizeofFirst : ℕ
  lists : List ListField

/-- One turn of the loop. -/
def TypeSetup.next (s : TypeSetup) (field : ContainerField) : TypeSetup :=
  let sizeofFirst := if s.prevVarsizedOffset = 0 then field.sizeofType else s.sizeofFirst
  match field with
  | .fixed _ size =>
    { s with sizeofFirst := sizeofFirst, prevVarsizedOffset := s.prevVarsizedOffset + size }
  | .list element expr =>
    let list := match s.prevVarsizedField with
      | none => .first element expr
      | some prev => .after prev sizeofFirst s.prevVarsizedOffset element expr
    ⟨some list, 0, sizeofFirst, list :: s.lists⟩

/-- A container: the `sizeof` of its struct, and its fields. -/
structure Container where
  sizeof : ℕ
  fields : List ContainerField
  deriving DecidableEq, Repr

/-- `_c_type_setup` -/
def Container.setup (c : Container) : TypeSetup :=
  c.fields.foldl TypeSetup.next ⟨none, 0, 0, []⟩

/-- The lists of a container. -/
def Container.listFields (c : Container) : List ListField := c.setup.lists.reverse

/-! ### The generated functions -/

/-- `XCB_TYPE_PAD` -/
def typePad (size : ℕ) (index : BitVec 32) : ℤ :=
  (-index &&& BitVec.ofNat 32 (if size > 4 then 3 else size - 1)).toNat

/-- `xcb_generic_iterator_t`, and the iterators of the types. -/
structure Iterator where
  data : ℤ
  rem : ℤ
  index : BitVec 32
  deriving DecidableEq, Repr

/-- The end function of a type of fixed size. -/
def typeEnd (element : Element) (i : Iterator) : Iterator :=
  let data := i.data + i.rem * element.size
  { data := data, rem := 0, index := i.index + BitVec.ofInt 32 (data - i.data) }

namespace ListField

def element : ListField → Element
  | .first element _ => element
  | .after _ _ _ element _ => element

def expr : ListField → Expression
  | .first _ expr => expr
  | .after _ _ _ _ expr => expr

section

variable (sizeof : ℕ) (scope : CScope)

/-- The value of the length expression. The three functions have the same text for it. -/
def count (f : ListField) : CInt := (f.expr.emit .member).eval scope

/-- `f_length(R)`, an `int`. -/
def length (f : ListField) : ℤ := (f.count scope).bits.toInt

/-- `f_iterator(R)`, after the end of the list before. -/
def iteratorAfter (f : ListField) (prev : Option Iterator) : Iterator :=
  let data := match prev with
    | none => sizeof
    | some prev => prev.data + typePad f.element.size prev.index
  { data := data, rem := f.length scope, index := BitVec.ofInt 32 data }

/-- `f_end(R)`, after the end of the list before. -/
def simpleEndAfter (f : ListField) (prev : Option Iterator) : Iterator :=
  let data := match prev with
    | none => sizeof + (f.count scope).toInt * f.element.size
    | some child => child.data + (f.count scope).toInt * f.element.size
  { data := data, rem := 0, index := BitVec.ofInt 32 data }

/-- `_c_iterator_get_end`: `f_end(R)`, or the end function of the element type. -/
def getEnd : ListField → Iterator
  | .first element expr =>
    let f := ListField.first element expr
    if element.isSimple then f.simpleEndAfter sizeof scope none
    else typeEnd element (f.iteratorAfter sizeof scope none)
  | .after prev sizeofFirst offset element expr =>
    let f := ListField.after prev sizeofFirst offset element expr
    if element.isSimple then f.simpleEndAfter sizeof scope (some prev.getEnd)
    else typeEnd element (f.iteratorAfter sizeof scope (some prev.getEnd))

/-- The end of the list before. -/
def prevEnd : ListField → Option Iterator
  | .first .. => none
  | .after prev .. => some (prev.getEnd sizeof scope)

/-- `f_iterator(R)` -/
def iterator (f : ListField) : Iterator :=
  f.iteratorAfter sizeof scope (f.prevEnd sizeof scope)

/-- `f(R)` -/
def accessor : ListField → ℤ
  | .first .. => sizeof
  | .after prev sizeofFirst offset _ _ =>
    (prev.getEnd sizeof scope).data + typePad sizeofFirst (prev.getEnd sizeof scope).index + offset

/-- The views of a list agree: the iterator begins where the accessor says, and the end comes after
as many elements as the length says. -/
structure Agrees (f : ListField) : Prop where
  iterator_data : f.element.isSimple = false →
    (f.iterator sizeof scope).data = f.accessor sizeof scope
  end_data : (f.getEnd sizeof scope).data =
    f.accessor sizeof scope + f.length scope * f.element.size

/-! ### The layout they should agree on -/

/-- Where a list ends: the padding is that of the first field after the list before. -/
def stop : ListField → ℤ
  | .first element expr =>
    sizeof + (ListField.first element expr).length scope * element.size
  | .after prev sizeofFirst offset element expr =>
    prev.stop + typePad sizeofFirst (BitVec.ofInt 32 prev.stop) + offset +
      (ListField.after prev sizeofFirst offset element expr).length scope * element.size

/-- What the conversion of the length to `int` loses: nothing below `2 ^ 31`. -/
def lost (f : ListField) : ℤ := (f.count scope).toInt - f.length scope

/-- What is skipped before the list is what the function for its end, or its iterator, skips:
nothing before simple elements, and padding for the element type before others. -/
def Level : ListField → Prop
  | .first element expr =>
    element.isSimple = true → (ListField.first element expr).lost scope = 0
  | .after prev sizeofFirst offset element expr =>
    let skipped := typePad sizeofFirst (BitVec.ofInt 32 (prev.stop sizeof scope)) + offset
    if element.isSimple then
      skipped = (ListField.after prev sizeofFirst offset element expr).lost scope * element.size
    else skipped = typePad element.size (BitVec.ofInt 32 (prev.stop sizeof scope))

end

/-- A list and those before it. -/
def chain : ListField → List ListField
  | .first element expr => [.first element expr]
  | .after prev sizeofFirst offset element expr =>
    .after prev sizeofFirst offset element expr :: prev.chain

/-! ### Agreement -/

variable {sizeof : ℕ} {scope : CScope}

theorem getEnd_eq (f : ListField) : f.getEnd sizeof scope =
    if f.element.isSimple then f.simpleEndAfter sizeof scope (f.prevEnd sizeof scope)
    else typeEnd f.element (f.iterator sizeof scope) := by
  cases f <;> rfl

theorem getEnd_of_simple (f : ListField) (h : f.element.isSimple = true) :
    f.getEnd sizeof scope = f.simpleEndAfter sizeof scope (f.prevEnd sizeof scope) := by
  rw [getEnd_eq, if_pos h]

theorem getEnd_of_not_simple (f : ListField) (h : f.element.isSimple = false) :
    f.getEnd sizeof scope = typeEnd f.element (f.iterator sizeof scope) := by
  rw [getEnd_eq, if_neg (by simp [h])]

/-- The index of an end is its position. -/
theorem index_getEnd (f : ListField) :
    (f.getEnd sizeof scope).index = BitVec.ofInt 32 (f.getEnd sizeof scope).data := by
  rw [getEnd_eq]
  split
  · rfl
  · simp only [typeEnd, iterator, iteratorAfter]
    rw [← BitVec.ofInt_add]
    congr 1
    ring

/-- Where the views of a list and of those before it agree, the end is where it should be. -/
theorem data_getEnd {f : ListField} (h : ∀ g ∈ f.chain, g.Agrees sizeof scope) :
    (f.getEnd sizeof scope).data = f.stop sizeof scope := by
  induction f with
  | first element expr => exact (h _ List.mem_cons_self).end_data
  | after prev sizeofFirst offset element expr ih =>
    have hprev := ih fun g hg => h g (List.mem_cons_of_mem _ hg)
    rw [(h _ List.mem_cons_self).end_data, accessor, index_getEnd, hprev]
    rfl

theorem agrees_first_iff (element : Element) (expr : Expression) :
    (first element expr).Agrees sizeof scope ↔ (first element expr).Level sizeof scope := by
  have hpos : (0 : ℤ) < element.size := by exact_mod_cast element.pos
  constructor
  · intro h hsimple
    have hend := h.end_data
    rw [getEnd_of_simple (first element expr) hsimple] at hend
    have hmul : (first element expr).lost scope * element.size = 0 := by
      simp only [simpleEndAfter, prevEnd, accessor] at hend
      rw [lost, sub_mul]
      exact sub_eq_zero.mpr (add_left_cancel hend)
    exact (mul_eq_zero.mp hmul).resolve_right hpos.ne'
  · intro h
    refine ⟨fun _ => rfl, ?_⟩
    rw [getEnd_eq]
    split
    · next hsimple =>
      have hlost := h hsimple
      rw [lost, sub_eq_zero] at hlost
      simp only [simpleEndAfter, prevEnd, accessor, hlost]
    · rfl

theorem agrees_after_iff {prev : ListField} (sizeofFirst offset : ℕ) (element : Element)
    (expr : Expression) (hprev : (prev.getEnd sizeof scope).data = prev.stop sizeof scope) :
    (after prev sizeofFirst offset element expr).Agrees sizeof scope ↔
      (after prev sizeofFirst offset element expr).Level sizeof scope := by
  set f := after prev sizeofFirst offset element expr with hf
  have hindex : (prev.getEnd sizeof scope).index = BitVec.ofInt 32 (prev.stop sizeof scope) := by
    rw [index_getEnd, hprev]
  have hend : f.prevEnd sizeof scope = some (prev.getEnd sizeof scope) := rfl
  have haccessor : f.accessor sizeof scope = prev.stop sizeof scope +
      (typePad sizeofFirst (BitVec.ofInt 32 (prev.stop sizeof scope)) + offset) := by
    rw [← add_assoc, ← hindex, ← hprev]
    rfl
  cases hsimple : element.isSimple with
  | true =>
    have hlevel : f.Level sizeof scope ↔
        typePad sizeofFirst (BitVec.ofInt 32 (prev.stop sizeof scope)) + offset =
          f.lost scope * element.size := by
      simp only [hf, Level, hsimple, if_true]
    have hdata : (f.getEnd sizeof scope).data =
        prev.stop sizeof scope + (f.count scope).toInt * element.size := by
      rw [getEnd_of_simple f hsimple, hend, ← hprev]
      rfl
    rw [hlevel, lost, sub_mul, eq_sub_iff_add_eq]
    constructor
    · intro h
      have hdata' := h.end_data
      rw [hdata, haccessor, add_assoc] at hdata'
      exact (add_left_cancel hdata').symm
    · intro h
      refine ⟨fun hnot => absurd (hsimple.symm.trans hnot) Bool.true_eq_false_eq_False, ?_⟩
      rw [hdata, haccessor, add_assoc, ← h]
      rfl
  | false =>
    have hlevel : f.Level sizeof scope ↔
        typePad sizeofFirst (BitVec.ofInt 32 (prev.stop sizeof scope)) + offset =
          typePad element.size (BitVec.ofInt 32 (prev.stop sizeof scope)) := by
      simp only [hf, Level, hsimple, Bool.false_eq_true, if_false]
    have hdata : (f.iterator sizeof scope).data = prev.stop sizeof scope +
        typePad element.size (BitVec.ofInt 32 (prev.stop sizeof scope)) := by
      rw [iterator, hend, ← hindex, ← hprev]
      rfl
    have hends : (f.getEnd sizeof scope).data =
        (f.iterator sizeof scope).data + f.length scope * element.size := by
      rw [getEnd_of_not_simple f hsimple]
      rfl
    rw [hlevel]
    constructor
    · intro h
      have heq := h.iterator_data hsimple
      rw [hdata, haccessor] at heq
      exact (add_left_cancel heq).symm
    · intro h
      have heq : (f.iterator sizeof scope).data = f.accessor sizeof scope := by
        rw [hdata, haccessor, h]
      exact ⟨fun _ => heq, by rw [hends, heq]; rfl⟩

/-- A list and those before it agree if and only if they are level. -/
theorem forall_chain_agrees_iff (f : ListField) :
    (∀ g ∈ f.chain, g.Agrees sizeof scope) ↔ ∀ g ∈ f.chain, g.Level sizeof scope := by
  induction f with
  | first element expr =>
    rw [chain, List.forall_mem_singleton, List.forall_mem_singleton]
    exact agrees_first_iff element expr
  | after prev sizeofFirst offset element expr ih =>
    rw [chain, List.forall_mem_cons, List.forall_mem_cons, ← ih, and_congr_left_iff]
    intro h
    exact agrees_after_iff sizeofFirst offset element expr (data_getEnd h)

end ListField

/-! ### All lists of a container -/

namespace Container

/-- The lists of a container are its last list and those before it. -/
theorem lists_setup (c : Container) :
    c.setup.lists = c.setup.prevVarsizedField.elim [] ListField.chain := by
  have hfold : ∀ (fields : List ContainerField) (s : TypeSetup),
      s.lists = s.prevVarsizedField.elim [] ListField.chain →
      (fields.foldl TypeSetup.next s).lists =
        (fields.foldl TypeSetup.next s).prevVarsizedField.elim [] ListField.chain := by
    intro fields
    induction fields with
    | nil => exact fun s hs => hs
    | cons field fields ih =>
      intro s hs
      refine ih (s.next field) ?_
      cases field with
      | fixed sizeofType size => exact hs
      | list element expr =>
        cases hprev : s.prevVarsizedField with
        | none =>
          rw [hprev] at hs
          simp only [TypeSetup.next, hprev, Option.elim_some, ListField.chain, hs, Option.elim_none]
        | some prev =>
          rw [hprev] at hs
          simp only [TypeSetup.next, hprev, Option.elim_some, ListField.chain, hs]
  exact hfold c.fields ⟨none, 0, 0, []⟩ rfl

/-- **The generated views of all lists agree** if and only if no list has more skipped before it
than the functions for its end and for its iterator skip. -/
theorem agrees_iff (c : Container) (scope : CScope) :
    (∀ f ∈ c.listFields, f.Agrees c.sizeof scope) ↔
      ∀ f ∈ c.listFields, f.Level c.sizeof scope := by
  simp only [listFields, List.mem_reverse]
  rw [lists_setup]
  cases c.setup.prevVarsizedField with
  | none => exact iff_of_true nofun nofun
  | some last => exact ListField.forall_chain_agrees_iff last

/-- A name, and words after it. -/
def nameAndWords : Container where
  sizeof := 32
  fields := [
    .list ⟨1, true, Nat.one_pos⟩ (.length (.field "name_len" false) false),
    .list ⟨4, true, card32_pos⟩ (.length (.field "num_words" false) false)]

/-- **Words after a name** of one byte: the accessor skips three bytes, and the end does not. -/
theorem not_agrees_words : ∃ scope : CScope,
    (nameAndWords.listFields.map fun f => (f.accessor 32 scope, f.length scope,
      (f.getEnd 32 scope).data)) = [(32, 1, 33), (36, 1, 37)] ∧
      ¬ ∀ f ∈ nameAndWords.listFields, f.Agrees nameAndWords.sizeof scope := by
  refine ⟨⟨fun _ _ => .int 1, fun _ _ => .int 1⟩, by decide, fun h => ?_⟩
  have hend := (h (.after (.first ⟨1, true, Nat.one_pos⟩ (.length (.field "name_len" false) false))
    4 0 ⟨4, true, card32_pos⟩ (.length (.field "num_words" false) false)) (by decide)).end_data
  revert hend
  decide

end Container

end Xcb.CClient
