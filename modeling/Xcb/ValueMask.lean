import Xcb.Accessors
import Xcb.RequestHelper

/-!
# Value lists

A value list has one value for each bit that is set in a value mask, so its length is not a field
but the number of these bits. The generator writes `xcb_popcount(mask)` for it, in the accessors of
a list and in the request functions.

## Main definitions

* `selectedValues` — the values that a mask selects
* `Length.mask` — the mask, where the length of a list is counted

## Main results

* `length_valueList` — the lengths that the generated functions use
-/

namespace Xcb.CClient

variable {α : Type}

/-- The values that a mask selects, of one for each bit. -/
def selectedValues (mask : BitVec 32) (values : ℕ → α) : List α :=
  ((List.range 32).filter mask.getLsbD).map values

/-- The argument of `xcb_popcount`: the value of a length, as a `uint32_t`. -/
def Length.mask (len : Length) (place : Place) (scope : CScope) : BitVec 32 :=
  ((len.emit place).eval scope).bits

theorem length_selectedValues (mask : BitVec 32) (values : ℕ → α) :
    (selectedValues mask values).length = (popcount mask).toNat := by
  rw [selectedValues, List.length_map, ← List.countP_eq_length_filter, toNat_popcount, setBits]

/-- The remainder modulo `077` is less than that. -/
theorem popcount_lt (mask : BitVec 32) : (popcount mask).toNat < 63 := by
  rw [popcount, BitVec.toNat_umod]
  exact Nat.mod_lt _ (by decide)

theorem eval_emit_mask (len : Length) (place : Place) (scope : CScope) :
    ((Expression.length len true).emit place).eval scope =
      ⟨true, popcount (len.mask place scope)⟩ := rfl

/-- The count is the same number as an `int` and as a `size_t`. -/
theorem toInt_popcount (mask : BitVec 32) : (popcount mask).toInt = (popcount mask).toNat :=
  BitVec.toInt_eq_toNat_of_lt (by have := popcount_lt mask; omega)

theorem toSize_popcount (mask : BitVec 32) :
    (CInt.mk true (popcount mask)).toSize = BitVec.ofNat 64 (popcount mask).toNat := by
  have hmsb : (popcount mask).msb = false :=
    BitVec.msb_eq_false_iff_two_mul_lt.mpr (by have := popcount_lt mask; omega)
  rw [CInt.toSize, if_pos rfl, BitVec.signExtend_eq_setWidth_of_msb_false hmsb]
  exact (BitVec.ofNat_toNat 64 (popcount mask)).symm

/-- **The length of a value list**: `xcb_popcount` counts the bits of every mask. So the C
expression for the length of a list with a value mask has the number of values that the mask
selects, and so have the accessors of such a list and the request functions with one as a parameter.
-/
theorem length_valueList (values : ℕ → α) :
    (∀ mask : BitVec 32, (popcount mask).toNat = setBits mask ∧
      setBits mask = (selectedValues mask values).length) ∧
    (∀ (place : Place) (scope : CScope) (len : Length),
      (((Expression.length len true).emit place).eval scope).toInt =
        (selectedValues (len.mask place scope) values).length) ∧
    (∀ (sizeof : ℕ) (scope : CScope) (f : ListField) (len : Length),
      f.expr = .length len true →
      f.length scope = (selectedValues (len.mask .member scope) values).length ∧
      (f.iterator sizeof scope).rem = (selectedValues (len.mask .member scope) values).length) ∧
    (∀ (r : Request) (args : Arguments) (f : Field) (member : Member) (len : Length),
      f.type = .list member (.length len true) →
      r.listLen args f = BitVec.ofNat 64
        ((selectedValues (len.mask .parameter (r.scope args)) values).length * member.size)) := by
  refine ⟨fun mask => ?_, fun place scope len => ?_, fun sizeof scope f len hexpr => ?_,
    fun r args f member len htype => ?_⟩
  · rw [length_selectedValues]
    exact ⟨toNat_popcount mask, (toNat_popcount mask).symm⟩
  · rw [length_selectedValues, eval_emit_mask, CInt.toInt, if_pos rfl, toInt_popcount]
  · have hcount : f.count scope = ⟨true, popcount (len.mask .member scope)⟩ := by
      rw [ListField.count, hexpr, eval_emit_mask]
    have hlength : f.length scope = (popcount (len.mask .member scope)).toNat := by
      rw [ListField.length, hcount, toInt_popcount]
    rw [length_selectedValues]
    exact ⟨hlength, hlength⟩
  · rw [length_selectedValues, Request.listLen, htype]
    dsimp only
    rw [eval_emit_mask, toSize_popcount, BitVec.ofNat_mul]

/-- A request of one window, with a value mask and its list. -/
def changeAttributes : Request where
  fields :=
    [⟨"window", .scalar ⟨4, false⟩, true, true, false⟩,
      ⟨"value_mask", .scalar ⟨4, false⟩, true, true, false⟩,
      ⟨"value_list", .list ⟨4, true, card32_pos⟩ (.length (.field "value_mask" false) true),
        true, true, false⟩]

/-- The bits 0 and 11 are set in its mask. -/
def twoAttributes : Arguments where
  elements name := if name = "value_mask" then [[1, 8, 0, 0]] else []
  isNull _ := false

theorem listLen_twoAttributes : changeAttributes.listLen twoAttributes changeAttributes.fields[2] =
    BitVec.ofNat 64 ([0, 11].length * 4) := by
  have hselected : selectedValues ((Length.field "value_mask" false).mask .parameter
      (changeAttributes.scope twoAttributes)) id = [0, 11] := by
    decide +kernel
  have hlen := (length_valueList id).2.2.2 changeAttributes twoAttributes changeAttributes.fields[2]
    ⟨4, true, card32_pos⟩ (.field "value_mask" false) rfl
  rwa [hselected] at hlen

end Xcb.CClient
