import Xcb.Accessors
import Mathlib.Logic.Function.Iterate

/-!
# Generated iterators

A list whose elements are of variable size, and a container inside another, have no end that could
be computed from a length. The generator has their ends looked for: `next` for such an element asks
for the end of its last field of variable size, and the end function of a list calls `next` until
nothing remains. Each of these functions also hands on an index, from which the padding before the
next field is computed.

Positions are addresses here, since containers lie inside others.

## What the index measures

Every end function of a list measures from the start of the container it was called for. `next`
takes over the index of an end in the element, so that after the first element the index measures
from inside the list. `VarField.base` says from where.

## Main definitions

* `ElementType`, `VarField` — types of elements, and fields of variable size
* `FieldSetup.next` — `_c_type_setup`, for these
* `ElementType.next`, `ElementType.typeEnd` — `_c_iterator`
* `VarField.getEnd` — `_c_iterator_get_end`

## Main results

* `VarField.index_getEnd` — the index of an end is its distance from the base
* `VarField.measures_iff` — the fields for which that is the distance from the container
* `VarField.aligned_of_measures` — and then the padding aligns the next field
-/

namespace Xcb.CClient

/-! ### Fields of variable size -/

/-- The C struct of a container: its `c_type`, and the `sizeof` of that. -/
structure CStruct where
  type : String
  sizeof : ℕ
  pos : 0 < sizeof
  deriving Repr

mutual

/-- The type of the elements of a list. A container of variable size has a struct and a
`last_varsized_field`. -/
inductive ElementType
  | flat (element : Element)
  | varsized (struct : CStruct) (last : VarField)

/-- A field of variable size with its `prev_varsized_field`. The accessor of a container also needs
the `sizeof` of `first_field_after_varsized` and the `prev_varsized_offset`. -/
inductive VarField
  | first (member : ElementType) (expr : Expression)
  | list (prev : VarField) (member : ElementType) (expr : Expression)
  | container (prev : VarField) (sizeofFirst offset : ℕ) (struct : CStruct) (last : VarField)

end

/-- The `sizeof` of the elements. -/
def ElementType.size : ElementType → ℕ
  | .flat element => element.size
  | .varsized struct _ => struct.sizeof

def ElementType.isSimple : ElementType → Bool
  | .flat element => element.isSimple
  | .varsized .. => false

/-- A field as the description gives it. The types of elements and of nested containers have been
set up before. -/
inductive DescribedField
  | fixed (sizeofType size : ℕ)
  | list (member : ElementType) (expr : Expression)
  | container (struct : CStruct) (last : VarField)

def DescribedField.sizeofType : DescribedField → ℕ
  | .fixed sizeofType _ => sizeofType
  | .list member _ => member.size
  | .container struct _ => struct.sizeof

/-- The variables of `_c_type_setup`, and the fields of variable size so far, the last one first. -/
structure FieldSetup where
  prevVarsizedField : Option VarField
  prevVarsizedOffset : ℕ
  sizeofFirst : ℕ
  fields : List VarField

/-- One turn of the loop. The end of a nested container calls its accessor, which `_c_accessors`
writes only after another field of variable size: `none` where there is no such function. -/
def FieldSetup.next (s : FieldSetup) (field : DescribedField) : Option FieldSetup :=
  let sizeofFirst := if s.prevVarsizedOffset = 0 then field.sizeofType else s.sizeofFirst
  match field, s.prevVarsizedField with
  | .fixed _ size, _ =>
    some { s with sizeofFirst := sizeofFirst, prevVarsizedOffset := s.prevVarsizedOffset + size }
  | .list member expr, none =>
    let f := VarField.first member expr
    some ⟨some f, 0, sizeofFirst, f :: s.fields⟩
  | .list member expr, some prev =>
    let f := VarField.list prev member expr
    some ⟨some f, 0, sizeofFirst, f :: s.fields⟩
  | .container .., none => none
  | .container struct last, some prev =>
    let f := VarField.container prev sizeofFirst s.prevVarsizedOffset struct last
    some ⟨some f, 0, sizeofFirst, f :: s.fields⟩

/-- The fields of variable size of a container. -/
def varFields (fields : List DescribedField) : Option (List VarField) :=
  (fields.foldlM FieldSetup.next ⟨none, 0, 0, []⟩).map (·.fields.reverse)

/-! ### The generated functions -/

/-- What the members of a struct of this type at this address are. -/
abbrev Memory := String → ℤ → CScope

section

variable (mem : Memory)

/-- The value of a length expression, in a container at `R`. -/
def CStruct.count (struct : CStruct) (R : ℤ) (expr : Expression) : CInt :=
  (expr.emit .member).eval (mem struct.type R)

/-- `f_length(R)`, an `int`. -/
def CStruct.length (struct : CStruct) (R : ℤ) (expr : Expression) : ℤ :=
  (struct.count mem R expr).bits.toInt

/-- `f_iterator(R)`, after the end of the field before. -/
def CStruct.iterator (struct : CStruct) (R : ℤ) (size : ℕ) (expr : Expression)
    (prev : Option Iterator) : Iterator :=
  let data := match prev with
    | none => R + struct.sizeof
    | some prev => prev.data + typePad size prev.index
  { data := data, rem := struct.length mem R expr, index := BitVec.ofInt 32 (data - R) }

/-- `f_end(R)`, after the end of the field before. -/
def CStruct.simpleEnd (struct : CStruct) (R : ℤ) (size : ℕ) (expr : Expression)
    (prev : Option Iterator) : Iterator :=
  let data := match prev with
    | none => R + struct.sizeof + (struct.count mem R expr).toInt * size
    | some child => child.data + (struct.count mem R expr).toInt * size
  { data := data, rem := 0, index := BitVec.ofInt 32 (data - R) }

/-- `f(R)` for a nested container. -/
def containerAccessor (sizeofFirst offset : ℕ) (prev : Iterator) : ℤ :=
  prev.data + typePad sizeofFirst prev.index + offset

/-- The next element, which begins where the last field of this one ends. -/
def Iterator.to (i child : Iterator) : Iterator :=
  { data := child.data, rem := i.rem - 1, index := child.index }

mutual

/-- The end function of a type: a loop for elements of variable size. -/
def ElementType.typeEnd : ElementType → Iterator → Iterator
  | .flat element, i => CClient.typeEnd element i
  | .varsized struct last, i => (fun i => i.to (last.getEnd struct i.data))^[i.rem.toNat] i

/-- `_c_iterator_get_end`, for a field of the container at `R`. -/
def VarField.getEnd : VarField → CStruct → ℤ → Iterator
  | .first member expr, struct, R =>
    if member.isSimple then struct.simpleEnd mem R member.size expr none
    else member.typeEnd (struct.iterator mem R member.size expr none)
  | .list prev member expr, struct, R =>
    if member.isSimple then struct.simpleEnd mem R member.size expr (some (prev.getEnd struct R))
    else member.typeEnd (struct.iterator mem R member.size expr (some (prev.getEnd struct R)))
  | .container prev sizeofFirst offset nested last, struct, R =>
    last.getEnd nested (containerAccessor sizeofFirst offset (prev.getEnd struct R))

end

/-- The next function of a type. -/
def ElementType.next : ElementType → Iterator → Iterator
  | .flat element, i =>
    { data := i.data + element.size, rem := i.rem - 1
      index := i.index + BitVec.ofNat 32 element.size }
  | .varsized struct last, i => i.to (last.getEnd mem struct i.data)

mutual

/-- Where the index of an end is measured from: `R`, or the last element of the list. -/
def ElementType.base : ElementType → ℤ → Iterator → ℤ
  | .flat _, R, _ => R
  | .varsized struct last, R, i =>
    if i.rem.toNat = 0 then R
    else last.base struct (((ElementType.varsized struct last).next mem)^[i.rem.toNat - 1] i).data

def VarField.base : VarField → CStruct → ℤ → ℤ
  | .first member expr, struct, R =>
    member.base R (struct.iterator mem R member.size expr none)
  | .list prev member expr, struct, R =>
    member.base R (struct.iterator mem R member.size expr (some (prev.getEnd mem struct R)))
  | .container prev sizeofFirst offset nested last, struct, R =>
    last.base nested (containerAccessor sizeofFirst offset (prev.getEnd mem struct R))

end

mutual

/-- No list has a negative length: those of a list's elements. -/
def ElementType.Forward : ElementType → Iterator → Prop
  | .flat _, i => 0 ≤ i.rem
  | .varsized struct last, i => 0 ≤ i.rem ∧
    ∀ k < i.rem.toNat,
      last.Forward struct (((ElementType.varsized struct last).next mem)^[k] i).data

/-- No list has a negative length: those up to the end of a field. -/
def VarField.Forward : VarField → CStruct → ℤ → Prop
  | .first member expr, struct, R =>
    if member.isSimple then 0 ≤ (struct.count mem R expr).toInt
    else member.Forward (struct.iterator mem R member.size expr none)
  | .list prev member expr, struct, R =>
    prev.Forward struct R ∧
      if member.isSimple then 0 ≤ (struct.count mem R expr).toInt
      else member.Forward
        (struct.iterator mem R member.size expr (some (prev.getEnd mem struct R)))
  | .container prev sizeofFirst offset nested last, struct, R =>
    prev.Forward struct R ∧
      last.Forward nested (containerAccessor sizeofFirst offset (prev.getEnd mem struct R))

end

/-- The end of a list, after the end of the field before. -/
def ElementType.listEnd (member : ElementType) (struct : CStruct) (R : ℤ) (expr : Expression)
    (prev : Option Iterator) : Iterator :=
  if member.isSimple then struct.simpleEnd mem R member.size expr prev
  else member.typeEnd mem (struct.iterator mem R member.size expr prev)

/-- The base of a list, and whether it has no negative length. -/
def ElementType.listBase (member : ElementType) (struct : CStruct) (R : ℤ) (expr : Expression)
    (prev : Option Iterator) : ℤ :=
  member.base mem R (struct.iterator mem R member.size expr prev)

def ElementType.ListForward (member : ElementType) (struct : CStruct) (R : ℤ) (expr : Expression)
    (prev : Option Iterator) : Prop :=
  if member.isSimple then 0 ≤ (struct.count mem R expr).toInt
  else member.Forward mem (struct.iterator mem R member.size expr prev)

end

variable {mem : Memory}

/-! ### Lists of elements of fixed size

For these the functions are those of `ListField`, where positions count from the container. -/

/-- The same field here. -/
def ListField.toVarField : ListField → VarField
  | .first element expr => .first (.flat element) expr
  | .after prev _ _ element expr => .list prev.toVarField (.flat element) expr

theorem ListField.getEnd_toVarField (f : ListField) (struct : CStruct) :
    f.toVarField.getEnd mem struct 0 = f.getEnd struct.sizeof (mem struct.type 0) := by
  induction f with
  | first element expr =>
    simp only [toVarField, VarField.getEnd, ListField.getEnd, ElementType.isSimple,
      ElementType.size, ElementType.typeEnd, CStruct.simpleEnd, CStruct.iterator,
      simpleEndAfter, iteratorAfter,
      ListField.element, ListField.length, ListField.count, ListField.expr, CStruct.length,
      CStruct.count, zero_add, sub_zero]
  | after prev sizeofFirst offset element expr ih =>
    simp only [toVarField, VarField.getEnd, ListField.getEnd, ElementType.isSimple,
      ElementType.size, ElementType.typeEnd, CStruct.simpleEnd, CStruct.iterator,
      simpleEndAfter, iteratorAfter,
      ListField.element, ListField.length, ListField.count, ListField.expr, CStruct.length,
      CStruct.count, ih, sub_zero]

/-! ### The index of an end -/

theorem ElementType.typeEnd_varsized (struct : CStruct) (last : VarField) (i : Iterator) :
    (ElementType.varsized struct last).typeEnd mem i =
      ((ElementType.varsized struct last).next mem)^[i.rem.toNat] i := rfl

theorem CStruct.index_iterator (struct : CStruct) (R : ℤ) (size : ℕ) (expr : Expression)
    (prev : Option Iterator) : (struct.iterator mem R size expr prev).index =
      BitVec.ofInt 32 ((struct.iterator mem R size expr prev).data - R) := rfl

theorem CStruct.index_simpleEnd (struct : CStruct) (R : ℤ) (size : ℕ) (expr : Expression)
    (prev : Option Iterator) : (struct.simpleEnd mem R size expr prev).index =
      BitVec.ofInt 32 ((struct.simpleEnd mem R size expr prev).data - R) := rfl

/-- The end function for elements of fixed size goes on measuring from where the iterator did. -/
theorem index_typeEnd (element : Element) {i : Iterator} {R : ℤ}
    (h : i.index = BitVec.ofInt 32 (i.data - R)) : (typeEnd element i).index =
      BitVec.ofInt 32 ((typeEnd element i).data - R) := by
  simp only [typeEnd, h]
  rw [← BitVec.ofInt_add]
  congr 1
  ring

theorem ElementType.base_of_isSimple {m : ElementType} (h : m.isSimple = true) (R : ℤ)
    (i : Iterator) : m.base mem R i = R := by
  cases m with
  | flat element => rfl
  | varsized struct last => cases h

/-- The end of a list, if the end function of its elements keeps the index right. -/
theorem ElementType.index_listEnd {m : ElementType} {R : ℤ} (hend : ∀ i : Iterator,
      i.index = BitVec.ofInt 32 (i.data - R) → (m.typeEnd mem i).index =
        BitVec.ofInt 32 ((m.typeEnd mem i).data - m.base mem R i))
    (struct : CStruct) (expr : Expression) (prev : Option Iterator) :
    (m.listEnd mem struct R expr prev).index = BitVec.ofInt 32
      ((m.listEnd mem struct R expr prev).data - m.listBase mem struct R expr prev) := by
  rw [ElementType.listEnd, ElementType.listBase]
  split
  · next hsimple =>
    rw [ElementType.base_of_isSimple hsimple]
    exact struct.index_simpleEnd R m.size expr prev
  · exact hend _ (struct.index_iterator R m.size expr prev)

mutual

/-- For elements of variable size, the index is the one of the last element's end. -/
theorem ElementType.index_typeEnd (m : ElementType) {R : ℤ} {i : Iterator}
    (h : i.index = BitVec.ofInt 32 (i.data - R)) : (m.typeEnd mem i).index =
      BitVec.ofInt 32 ((m.typeEnd mem i).data - m.base mem R i) := by
  match m with
  | .flat element => exact CClient.index_typeEnd element h
  | .varsized struct last =>
    rw [ElementType.typeEnd_varsized, ElementType.base]
    by_cases hempty : i.rem.toNat = 0
    · rw [hempty, if_pos rfl]
      exact h
    · obtain ⟨n, hn⟩ := Nat.exists_eq_succ_of_ne_zero hempty
      rw [if_neg hempty, hn, Function.iterate_succ_apply']
      exact last.index_getEnd struct _
  termination_by structural m

/-- **The index of an end** is its distance from the base. -/
theorem VarField.index_getEnd (f : VarField) (struct : CStruct) (R : ℤ) :
    (f.getEnd mem struct R).index =
      BitVec.ofInt 32 ((f.getEnd mem struct R).data - f.base mem struct R) := by
  match f with
  | .first member expr =>
    exact ElementType.index_listEnd (fun i => member.index_typeEnd) struct expr none
  | .list prev member expr =>
    exact ElementType.index_listEnd (fun i => member.index_typeEnd) struct expr
      (some (prev.getEnd mem struct R))
  | .container prev sizeofFirst offset nested last => exact last.index_getEnd nested _
  termination_by structural f

end

/-! ### Where ends and bases lie -/

/-- A next function that never goes back. -/
theorem le_data_iterate {next : Iterator → Iterator} {i : Iterator} {n : ℕ}
    (h : ∀ k < n, (next^[k] i).data ≤ (next^[k + 1] i).data) : i.data ≤ (next^[n] i).data := by
  induction n with
  | zero => exact le_refl _
  | succ n ih => exact (ih fun k hk => h k (Nat.lt_succ_of_lt hk)).trans (h n (Nat.lt_succ_self n))

theorem CStruct.le_data_simpleEnd {struct : CStruct} {R : ℤ} {expr : Expression}
    (h : 0 ≤ (struct.count mem R expr).toInt) (size : ℕ) {prev : Option Iterator}
    (hprev : ∀ i ∈ prev, R + struct.sizeof ≤ i.data) :
    R + struct.sizeof ≤ (struct.simpleEnd mem R size expr prev).data := by
  have hmul : 0 ≤ (struct.count mem R expr).toInt * size := Int.mul_nonneg h (Int.natCast_nonneg _)
  cases prev with
  | none =>
    change _ ≤ R + struct.sizeof + _
    omega
  | some i =>
    have := hprev i rfl
    change _ ≤ i.data + _
    omega

theorem typePad_nonneg (size : ℕ) (index : BitVec 32) : 0 ≤ typePad size index :=
  Int.natCast_nonneg _

theorem CStruct.le_data_iterator (struct : CStruct) (R : ℤ) (size : ℕ) (expr : Expression)
    {prev : Option Iterator} (hprev : ∀ i ∈ prev, R + struct.sizeof ≤ i.data) :
    R + struct.sizeof ≤ (struct.iterator mem R size expr prev).data := by
  cases prev with
  | none => exact le_refl _
  | some i =>
    have hi := hprev i rfl
    have hpad := typePad_nonneg size i.index
    change _ ≤ i.data + typePad size i.index
    omega

theorem ElementType.le_data_listEnd {m : ElementType} {struct : CStruct} {R : ℤ} {expr : Expression}
    {prev : Option Iterator}
    (hend : ∀ i : Iterator, m.Forward mem i → i.data ≤ (m.typeEnd mem i).data)
    (h : m.ListForward mem struct R expr prev) (hprev : ∀ i ∈ prev, R + struct.sizeof ≤ i.data) :
    R + struct.sizeof ≤ (m.listEnd mem struct R expr prev).data := by
  rw [ElementType.ListForward] at h
  rw [ElementType.listEnd]
  split at h
  · next hsimple =>
    rw [if_pos hsimple]
    exact struct.le_data_simpleEnd h m.size hprev
  · next hsimple =>
    rw [if_neg hsimple]
    exact (struct.le_data_iterator R m.size expr hprev).trans (hend _ h)

mutual

theorem ElementType.le_data_typeEnd (m : ElementType) {i : Iterator} (h : m.Forward mem i) :
    i.data ≤ (m.typeEnd mem i).data := by
  match m with
  | .flat element =>
    have hmul : 0 ≤ i.rem * element.size := Int.mul_nonneg h (Int.natCast_nonneg _)
    change i.data ≤ i.data + i.rem * element.size
    omega
  | .varsized struct last =>
    rw [ElementType.typeEnd_varsized]
    refine le_data_iterate fun k hk => ?_
    have hnext := last.le_data_getEnd (h.2 k hk)
    rw [Function.iterate_succ_apply']
    change _ ≤ (last.getEnd mem struct _).data
    omega
  termination_by structural m

/-- The end of a field lies behind the struct. -/
theorem VarField.le_data_getEnd (f : VarField) {struct : CStruct} {R : ℤ}
    (h : f.Forward mem struct R) : R + struct.sizeof ≤ (f.getEnd mem struct R).data := by
  match f with
  | .first member expr =>
    exact ElementType.le_data_listEnd (fun i => member.le_data_typeEnd) h nofun
  | .list prev member expr =>
    refine ElementType.le_data_listEnd (fun i => member.le_data_typeEnd) h.2 ?_
    rintro i ⟨⟩
    exact prev.le_data_getEnd h.1
  | .container prev sizeofFirst offset nested last =>
    have hprev := prev.le_data_getEnd h.1
    have hlast := last.le_data_getEnd h.2
    have hpad := typePad_nonneg sizeofFirst (prev.getEnd mem struct R).index
    rw [containerAccessor] at hlast
    change _ ≤ (last.getEnd mem nested _).data
    rw [containerAccessor]
    omega
  termination_by structural f

end

/-! ### When the index measures from the container -/

/-- No element of variable size has been passed. -/
def ElementType.Direct : ElementType → ℤ → Prop
  | .flat _, _ => True
  | .varsized .., length => length = 0

/-- A list of elements of fixed size, or an empty one. -/
def VarField.FromStart (mem : Memory) : VarField → CStruct → ℤ → Prop
  | .first member expr, struct, R => member.Direct (struct.length mem R expr)
  | .list _ member expr, struct, R => member.Direct (struct.length mem R expr)
  | .container .., _, _ => False

/-- How many bytes there are from the container to the end of a list of this length. -/
def ElementType.listBytes (mem : Memory) (member : ElementType) (struct : CStruct) (R : ℤ)
    (expr : Expression) (prev : Option Iterator) : ℤ :=
  let start := match prev with
    | none => (struct.sizeof : ℤ)
    | some prev => prev.data - R + if member.isSimple then 0 else typePad member.size prev.index
  start + (if member.isSimple then (struct.count mem R expr).toInt else struct.length mem R expr) *
    member.size

/-- An `int` can hold that. -/
def VarField.Short (mem : Memory) : VarField → CStruct → ℤ → Prop
  | .first member expr, struct, R => member.listBytes mem struct R expr none < 2 ^ 31
  | .list prev member expr, struct, R =>
    member.listBytes mem struct R expr (some (prev.getEnd mem struct R)) < 2 ^ 31
  | .container .., _, _ => False

/-- The index of an end is the distance from the container. -/
def VarField.Measures (mem : Memory) (f : VarField) (struct : CStruct) (R : ℤ) : Prop :=
  (f.getEnd mem struct R).index.toInt = (f.getEnd mem struct R).data - R

theorem ElementType.base_of_direct {m : ElementType} {i : Iterator} (h : m.Direct i.rem) (R : ℤ) :
    m.base mem R i = R := by
  cases m with
  | flat element => rfl
  | varsized struct last =>
    rw [ElementType.base, if_pos]
    change i.rem = 0 at h
    omega

theorem ElementType.base_listEnd {m : ElementType} {struct : CStruct} {R : ℤ} {expr : Expression}
    {prev : Option Iterator}
    (hend : ∀ i : Iterator, R < i.data → m.Forward mem i →
      m.Direct i.rem ∧ m.base mem R i = R ∨
        ¬ m.Direct i.rem ∧ R < m.base mem R i ∧ m.base mem R i ≤ (m.typeEnd mem i).data)
    (h : m.ListForward mem struct R expr prev) (hprev : ∀ i ∈ prev, R + struct.sizeof ≤ i.data) :
    m.Direct (struct.length mem R expr) ∧ m.listBase mem struct R expr prev = R ∨
      ¬ m.Direct (struct.length mem R expr) ∧ R < m.listBase mem struct R expr prev ∧
        m.listBase mem struct R expr prev ≤ (m.listEnd mem struct R expr prev).data := by
  rw [ElementType.ListForward] at h
  rw [ElementType.listEnd, ElementType.listBase]
  split at h
  · next hsimple =>
    cases m with
    | flat element => exact .inl ⟨trivial, rfl⟩
    | varsized struct last => cases hsimple
  · next hsimple =>
    have hdata : R + struct.sizeof ≤ (struct.iterator mem R m.size expr prev).data :=
      struct.le_data_iterator R m.size expr hprev
    have hpos := struct.pos
    rw [if_neg hsimple]
    exact hend _ (by omega) h

theorem ElementType.data_listEnd {m : ElementType} {struct : CStruct} {R : ℤ} {expr : Expression}
    (prev : Option Iterator) (h : m.Direct (struct.length mem R expr)) :
    (m.listEnd mem struct R expr prev).data = R + m.listBytes mem struct R expr prev := by
  rw [ElementType.listEnd]
  unfold ElementType.listBytes
  cases m with
  | flat element =>
    cases hsimple : (ElementType.flat element).isSimple with
    | true =>
      rw [if_pos rfl, if_pos rfl]
      cases prev <;> simp only [CStruct.simpleEnd, if_true] <;> ring
    | false =>
      rw [if_neg Bool.false_ne_true, if_neg Bool.false_ne_true]
      cases prev <;>
        simp only [ElementType.typeEnd, CClient.typeEnd, CStruct.iterator, ElementType.size,
          Bool.false_eq_true, if_false] <;> ring
  | varsized struct' last =>
    have hsimple : ¬ (ElementType.varsized struct' last).isSimple = true := Bool.false_ne_true
    change struct.length mem R expr = 0 at h
    rw [if_neg hsimple, if_neg hsimple, ElementType.typeEnd_varsized, h, zero_mul, add_zero]
    cases prev with
    | none => simp [CStruct.iterator, h]
    | some prev =>
      simp only [CStruct.iterator, h, Int.toNat_zero, Function.iterate_zero, id, if_neg hsimple]
      ring

/-- A short list ends near the container. -/
theorem VarField.short_iff {f : VarField} {struct : CStruct} {R : ℤ}
    (h : f.FromStart mem struct R) :
    f.Short mem struct R ↔ (f.getEnd mem struct R).data < R + 2 ^ 31 := by
  cases f with
  | first member expr =>
    have hend := ElementType.data_listEnd none h
    rw [VarField.Short, show (VarField.first member expr).getEnd mem struct R =
      member.listEnd mem struct R expr none from rfl, hend]
    omega
  | list prev member expr =>
    have hend := ElementType.data_listEnd (some (prev.getEnd mem struct R)) h
    rw [VarField.Short, show (VarField.list prev member expr).getEnd mem struct R =
      member.listEnd mem struct R expr (some (prev.getEnd mem struct R)) from rfl, hend]
    omega
  | container => exact h.elim

mutual

/-- The base of a list is `R` until the first element of variable size has been passed, and inside
the last such element from then on. -/
theorem ElementType.base_cases (m : ElementType) {R : ℤ} {i : Iterator} (hR : R < i.data)
    (h : m.Forward mem i) : m.Direct i.rem ∧ m.base mem R i = R ∨
      ¬ m.Direct i.rem ∧ R < m.base mem R i ∧ m.base mem R i ≤ (m.typeEnd mem i).data := by
  match m with
  | .flat element => exact .inl ⟨trivial, rfl⟩
  | .varsized struct last =>
    by_cases hempty : i.rem = 0
    · exact .inl ⟨hempty, ElementType.base_of_direct (m := .varsized struct last) hempty R⟩
    · have hrem : 0 ≤ i.rem := h.1
      obtain ⟨n, hn⟩ := Nat.exists_eq_succ_of_ne_zero (n := i.rem.toNat) (by omega)
      have hlast := last.base_cases (h.2 n (by omega))
      have hend := last.le_data_getEnd (h.2 n (by omega))
      have hwidth := struct.pos
      have hle : i.data ≤ (((ElementType.varsized struct last).next mem)^[n] i).data := by
        refine le_data_iterate fun k hk => ?_
        have hnext := last.le_data_getEnd (h.2 k (by omega))
        rw [Function.iterate_succ_apply']
        change _ ≤ (last.getEnd mem struct _).data
        omega
      rw [ElementType.typeEnd_varsized, ElementType.base, hn, if_neg (Nat.succ_ne_zero n),
        Nat.succ_sub_one, Function.iterate_succ_apply']
      refine .inr ⟨hempty, ?_⟩
      change R < last.base mem struct _ ∧ last.base mem struct _ ≤ (last.getEnd mem struct _).data
      omega
  termination_by structural m

/-- The base of a field is `R`, or behind it. -/
theorem VarField.base_cases (f : VarField) {struct : CStruct} {R : ℤ}
    (h : f.Forward mem struct R) :
    f.FromStart mem struct R ∧ f.base mem struct R = R ∨
      ¬ f.FromStart mem struct R ∧ R < f.base mem struct R ∧
        f.base mem struct R ≤ (f.getEnd mem struct R).data := by
  match f with
  | .first member expr => exact ElementType.base_listEnd (fun i => member.base_cases) h nofun
  | .list prev member expr =>
    refine ElementType.base_listEnd (fun i => member.base_cases) h.2 ?_
    rintro i ⟨⟩
    exact prev.le_data_getEnd h.1
  | .container prev sizeofFirst offset nested last =>
    have hprev := prev.le_data_getEnd h.1
    have hlast := last.base_cases h.2
    have hend := last.le_data_getEnd h.2
    have hpad := typePad_nonneg sizeofFirst (prev.getEnd mem struct R).index
    have hstruct := struct.pos
    have hstart : R < containerAccessor sizeofFirst offset (prev.getEnd mem struct R) := by
      rw [containerAccessor]
      omega
    refine .inr ⟨not_false, ?_⟩
    change R < last.base mem nested _ ∧ last.base mem nested _ ≤ (last.getEnd mem nested _).data
    omega
  termination_by structural f

end

theorem bmod_lt_half (d : ℤ) : d.bmod (2 ^ 32) < 2 ^ 31 := Int.bmod_lt (by norm_num)

/-- A distance survives in an `int` if it is below `2 ^ 31`. -/
theorem bmod_eq_self_iff {d : ℤ} (h : 0 ≤ d) : d.bmod (2 ^ 32) = d ↔ d < 2 ^ 31 := by
  constructor
  · intro heq
    have := bmod_lt_half d
    omega
  · intro hlt
    refine Int.bmod_eq_of_le_mul_two ?_ ?_ <;> push_cast <;> omega

/-- **What the index measures.** When no list has a negative length, the index of the end of a field
is the distance from the container for a short list of elements of fixed size, and for an empty
list, and for no other field. -/
theorem VarField.measures_iff {f : VarField} {struct : CStruct} {R : ℤ}
    (h : f.Forward mem struct R) : f.Measures mem struct R ↔
      f.FromStart mem struct R ∧ f.Short mem struct R := by
  have hdata := f.le_data_getEnd h
  rw [VarField.Measures, f.index_getEnd, BitVec.toInt_ofInt]
  rcases f.base_cases h with ⟨hstart, hbase⟩ | ⟨hstart, hlt, hle⟩
  · rw [hbase, bmod_eq_self_iff (by omega), and_iff_right hstart, VarField.short_iff hstart]
    omega
  · simp only [hstart, false_and, iff_false]
    intro heq
    -- the distance from the base is smaller, and would be the index
    have hhalf := bmod_lt_half ((f.getEnd mem struct R).data - f.base mem struct R)
    have hself := (bmod_eq_self_iff (d := (f.getEnd mem struct R).data - f.base mem struct R)
      (by omega)).mpr (by omega)
    omega

/-! ### What the padding is for -/

/-- The alignment of a type in a packet, as `XCB_TYPE_PAD` has it. -/
def typeAlign (size : ℕ) : ℕ := if size > 4 then 4 else size

/-- Padding goes up to the next multiple of the alignment, unless that is 3. -/
theorem dvd_add_typePad {size : ℕ} (hpos : 0 < size) (hthree : size ≠ 3) (index : BitVec 32) :
    (typeAlign size : ℤ) ∣ index.toInt + typePad size index := by
  have halign : typeAlign size = 1 ∨ typeAlign size = 2 ∨ typeAlign size = 4 := by
    rw [typeAlign]
    split <;> omega
  have hmask : (if size > 4 then 3 else size - 1) = typeAlign size - 1 := by
    rw [typeAlign]
    split <;> rfl
  have hlt := index.isLt
  rw [typePad, hmask, BitVec.toNat_and, BitVec.toNat_neg, BitVec.toInt_eq_toNat_cond]
  refine Int.dvd_of_emod_eq_zero ?_
  rcases halign with h | h | h
  · rw [h, show (BitVec.ofNat 32 (1 - 1)).toNat = 2 ^ 0 - 1 from rfl,
      Nat.and_two_pow_sub_one_eq_mod]
    split <;> omega
  · rw [h, show (BitVec.ofNat 32 (2 - 1)).toNat = 2 ^ 1 - 1 from rfl,
      Nat.and_two_pow_sub_one_eq_mod]
    split <;> omega
  · rw [h, show (BitVec.ofNat 32 (4 - 1)).toNat = 2 ^ 2 - 1 from rfl,
      Nat.and_two_pow_sub_one_eq_mod]
    split <;> omega

/-- Where the index measures from the container, the padding after a field aligns the next one
relative to it. -/
theorem VarField.aligned_of_measures {f : VarField} {struct : CStruct} {R : ℤ}
    (h : f.Measures mem struct R) {size : ℕ} (hpos : 0 < size) (hthree : size ≠ 3) :
    (typeAlign size : ℤ) ∣ (f.getEnd mem struct R).data - R +
      typePad size (f.getEnd mem struct R).index := by
  rw [← h]
  exact dvd_add_typePad hpos hthree _

/-! ### Names and words

A list of strings, each with its length in its first byte, and words after it. -/

/-- `STR` -/
def strStruct : CStruct := ⟨"xcb_str_t", 1, Nat.one_pos⟩

def strType : ElementType :=
  .varsized strStruct
    (.first (.flat ⟨1, true, Nat.one_pos⟩) (.length (.field "name_len" false) false))

/-- A reply with these two lists. -/
def replyStruct : CStruct := ⟨"reply_t", 32, by decide⟩

def replyFields : List DescribedField :=
  [.fixed 4 32, .list strType (.length (.field "names_len" false) false),
    .list (.flat ⟨4, true, card32_pos⟩) (.length (.field "words_len" false) false)]

/-- Its list of strings. -/
def strList : VarField := .first strType (.length (.field "names_len" false) false)

example : varFields replyFields = some [strList,
    .list strList (.flat ⟨4, true, card32_pos⟩) (.length (.field "words_len" false) false)] := rfl

/-- A reply with `n` strings of one byte each. -/
def replyMemory (n : ℕ) : Memory := fun type _ =>
  ⟨fun _ _ => .int (if type = "reply_t" then n else 1), fun _ _ => .int 0⟩

/-- A list of words after the characters of a name. -/
def nameList : VarField :=
  .first (.flat ⟨1, true, Nat.one_pos⟩) (.length (.field "name_len" false) false)

def wordList : VarField :=
  .list nameList (.flat ⟨4, true, card32_pos⟩) (.length (.field "words_len" false) false)

/-- Three words after three characters: the index of their end measures from the reply. -/
theorem measures_words : wordList.getEnd (replyMemory 3) replyStruct 0 = ⟨47, 0, 47⟩ ∧
    wordList.Measures (replyMemory 3) replyStruct 0 := by
  have hforward : wordList.Forward (replyMemory 3) replyStruct 0 := by
    refine ⟨?_, ?_⟩
    · show 0 ≤ (replyStruct.count (replyMemory 3) 0 _).toInt
      decide
    · show 0 ≤ (replyStruct.count (replyMemory 3) 0 _).toInt
      decide
  refine ⟨by decide, (VarField.measures_iff hforward).mpr ⟨trivial, ?_⟩⟩
  show ElementType.listBytes (replyMemory 3) _ replyStruct 0 _ _ < 2 ^ 31
  decide

/-- For two strings it measures from the second one: 2, where the distance is 36, so that the words
after them are looked for at 38. -/
theorem not_measures_strings :
    strList.getEnd (replyMemory 2) replyStruct 0 = ⟨36, 0, 2⟩ ∧ typePad 4 2 = 2 ∧
      ¬ strList.Measures (replyMemory 2) replyStruct 0 := by
  have hend : strList.getEnd (replyMemory 2) replyStruct 0 = ⟨36, 0, 2⟩ := by decide
  refine ⟨hend, by decide, ?_⟩
  rw [VarField.Measures, hend]
  decide

end Xcb.CClient
