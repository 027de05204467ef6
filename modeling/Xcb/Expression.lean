import Xcb.Popcount
import Mathlib.Data.Int.Bitwise

/-!
# Expressions of the generator

A description gives the length of a list, and the value of a computed field, by an expression over
other fields. The generator writes it down again as C: `_c_accessor_get_expr` in `c_client.py`.

## Main definitions

* `CInt` — a value of type `int` or `unsigned int`
* `Expression.value` — what an expression stands for, in the arithmetic of C
* `Expression.exactValue` — the integer that it stands for
* `Expression.emit` — `_c_accessor_get_expr`, the C expression for it

## Main results

* `Expression.eval_emit` — the C expression has the value
* `Expression.bits_value` — the value is that integer modulo `2 ^ 32`, where nothing is divided
-/

namespace Xcb.CClient

/-! ### C arithmetic -/

/-- A value after the integer promotions. -/
structure CInt where
  signed : Bool
  bits : BitVec 32
  deriving DecidableEq, Repr

namespace CInt

/-- An `int`. -/
def int (n : ℕ) : CInt := ⟨true, BitVec.ofNat 32 n⟩

def toInt (a : CInt) : ℤ :=
  if a.signed then a.bits.toInt else a.bits.toNat

/-- The conversion to `size_t`. -/
def toSize (a : CInt) : BitVec 64 :=
  if a.signed then a.bits.signExtend 64 else a.bits.setWidth 64

end CInt

/-- The operators of expressions, other than `~`. -/
inductive Operator
  | add | sub | mul | div | and | shl
  deriving DecidableEq, Repr

/-- An operator of C, after the usual arithmetic conversions. -/
def Operator.eval (op : Operator) (a b : CInt) : CInt :=
  let signed := a.signed && b.signed
  match op with
  | .add => ⟨signed, a.bits + b.bits⟩
  | .sub => ⟨signed, a.bits - b.bits⟩
  | .mul => ⟨signed, a.bits * b.bits⟩
  | .div => ⟨signed, if signed then a.bits.sdiv b.bits else a.bits / b.bits⟩
  | .and => ⟨signed, a.bits &&& b.bits⟩
  | .shl => ⟨a.signed, a.bits <<< b.bits.toNat⟩

/-- The `sizeof` of `uint32_t` is positive. -/
theorem card32_pos : 0 < 4 := by decide

/-! ### Expressions -/

/-- Where a length comes from: a field, of which the generator knows whether it comes after a field
of variable size, or the description itself. -/
inductive Length
  | field (name : String) (afterVarsized : Bool)
  | nmemb (n : ℕ)
  deriving DecidableEq, Repr

/-- An `Expression` of a description. -/
inductive Expression
  | length (len : Length) (bitfield : Bool)
  | not (rhs : Expression)
  | op (lhs : Expression) (operator : Operator) (rhs : Expression)
  deriving DecidableEq, Repr

def Length.value (number : String → CInt) : Length → CInt
  | .field name _ => number name
  | .nmemb n => .int n

/-- The value of an expression, when the fields have these numbers. A value mask counts its bits. -/
def Expression.value (number : String → CInt) : Expression → CInt
  | .length len false => len.value number
  | .length len true => .int (setBits (len.value number).bits)
  | .not rhs => { rhs.value number with bits := ~~~(rhs.value number).bits }
  | .op lhs operator rhs => operator.eval (lhs.value number) (rhs.value number)

/-! ### Integers -/

/-- The operator on integers. -/
def Operator.exactValue (op : Operator) (a b : ℤ) : ℤ :=
  match op with
  | .add => a + b
  | .sub => a - b
  | .mul => a * b
  | .div => a.tdiv b
  | .and => a.land b
  | .shl => a * 2 ^ b.toNat

def Length.exactValue (number : String → CInt) : Length → ℤ
  | .field name _ => (number name).toInt
  | .nmemb n => n

/-- The integer that an expression stands for, whatever its size. The complement of a number has 32
bits if the number is unsigned. -/
def Expression.exactValue (number : String → CInt) : Expression → ℤ
  | .length len false => len.exactValue number
  | .length len true => setBits (len.value number).bits
  | .not rhs =>
    if (rhs.value number).signed then -rhs.exactValue number - 1
    else 2 ^ 32 - 1 - rhs.exactValue number
  | .op lhs operator rhs => operator.exactValue (lhs.exactValue number) (rhs.exactValue number)

/-- The expression has neither divisions nor shifts. -/
def Expression.Modular : Expression → Prop
  | .length _ _ => True
  | .not rhs => rhs.Modular
  | .op lhs operator rhs => operator ≠ .div ∧ operator ≠ .shl ∧ lhs.Modular ∧ rhs.Modular

theorem CInt.ofInt_toInt (a : CInt) : BitVec.ofInt 32 a.toInt = a.bits := by
  obtain ⟨signed, bits⟩ := a
  cases signed with
  | true => exact BitVec.ofInt_toInt
  | false =>
    show BitVec.ofInt 32 (bits.toNat : ℤ) = bits
    rw [BitVec.ofInt_natCast, BitVec.ofNat_toNat, BitVec.setWidth_eq]

theorem getLsbD_ofInt {w : ℕ} (a : ℤ) (i : ℕ) :
    (BitVec.ofInt w a).getLsbD i = (decide (i < w) && a.testBit i) := by
  cases a with
  | ofNat n =>
    rw [Int.ofNat_eq_natCast, BitVec.ofInt_natCast, BitVec.getLsbD_ofNat]
    rfl
  | negSucc n =>
    rw [BitVec.ofInt_negSucc_eq_not_ofNat, BitVec.getLsbD_not, BitVec.getLsbD_ofNat]
    by_cases h : i < w <;> simp [h, Int.testBit]

theorem ofInt_land {w : ℕ} (a b : ℤ) :
    BitVec.ofInt w (a.land b) = BitVec.ofInt w a &&& BitVec.ofInt w b := by
  refine BitVec.eq_of_getLsbD_eq fun i hi => ?_
  rw [BitVec.getLsbD_and, getLsbD_ofInt, getLsbD_ofInt, getLsbD_ofInt, Int.testBit_land]
  simp [hi]

theorem ofInt_sub {w : ℕ} (a b : ℤ) :
    BitVec.ofInt w (a - b) = BitVec.ofInt w a - BitVec.ofInt w b := by
  rw [Int.sub_eq_add_neg, BitVec.ofInt_add, BitVec.ofInt_neg, BitVec.sub_eq_add_neg]

/-- **The arithmetic of C** comes to the integer modulo `2 ^ 32`. -/
theorem Expression.bits_value {number : String → CInt} {e : Expression} (h : e.Modular) :
    (e.value number).bits = BitVec.ofInt 32 (e.exactValue number) := by
  induction e with
  | length len bitfield =>
    cases bitfield with
    | false =>
      cases len with
      | field name afterVarsized => exact (CInt.ofInt_toInt (number name)).symm
      | nmemb n => exact (BitVec.ofInt_natCast 32 n).symm
    | true => exact (BitVec.ofInt_natCast 32 _).symm
  | not rhs ih =>
    rw [value, exactValue]
    show ~~~(rhs.value number).bits = _
    rw [ih h, BitVec.not_eq_neg_add]
    split
    · rw [ofInt_sub, BitVec.ofInt_neg]
      rfl
    · rw [ofInt_sub, BitVec.sub_eq_add_neg, BitVec.sub_eq_add_neg, BitVec.add_comm]
      rfl
  | op lhs operator rhs ihl ihr =>
    obtain ⟨hdiv, hshl, hl, hr⟩ := h
    rw [value, exactValue]
    cases operator with
    | add => exact (congrArg₂ (· + ·) (ihl hl) (ihr hr)).trans (BitVec.ofInt_add _ _).symm
    | sub => exact (congrArg₂ (· - ·) (ihl hl) (ihr hr)).trans (ofInt_sub _ _).symm
    | mul => exact (congrArg₂ (· * ·) (ihl hl) (ihr hr)).trans (BitVec.ofInt_mul _ _).symm
    | and => exact (congrArg₂ (· &&& ·) (ihl hl) (ihr hr)).trans (ofInt_land _ _).symm
    | div => exact absurd rfl hdiv
    | shl => exact absurd rfl hshl

/-! ### What is emitted -/

/-- The prefix: fields are parameters, or members of `*R`. -/
inductive Place
  | parameter
  | member
  deriving DecidableEq, Repr

/-- A C expression. -/
inductive CExpr
  | field (place : Place) (name : String)
  | accessor (place : Place) (name : String)
  | literal (n : ℕ)
  | popcount (e : CExpr)
  | not (e : CExpr)
  | op (lhs : CExpr) (operator : Operator) (rhs : CExpr)
  deriving DecidableEq, Repr

/-- `_c_accessor_get_length`. -/
def Length.emit (place : Place) : Length → CExpr
  | .field name true => .accessor place name
  | .field name false => .field place name
  | .nmemb n => .literal n

/-- `_c_accessor_get_expr`. -/
def Expression.emit (place : Place) : Expression → CExpr
  | .not rhs => .not (rhs.emit place)
  | .op lhs operator rhs => .op (lhs.emit place) operator (rhs.emit place)
  | .length len true => .popcount (len.emit place)
  | .length len false => len.emit place

/-- What the names of a C function mean. -/
structure CScope where
  field : Place → String → CInt
  accessor : Place → String → CInt

/-- The value of a C expression. -/
def CExpr.eval (scope : CScope) : CExpr → CInt
  | .field place name => scope.field place name
  | .accessor place name => scope.accessor place name
  | .literal n => .int n
  | .popcount e => ⟨true, Xcb.popcount (e.eval scope).bits⟩
  | .not e => { e.eval scope with bits := ~~~(e.eval scope).bits }
  | .op lhs operator rhs => operator.eval (lhs.eval scope) (rhs.eval scope)

/-- No field of the expression comes after a field of variable size. -/
def Expression.Direct : Expression → Prop
  | .length (.field _ afterVarsized) _ => afterVarsized = false
  | .length (.nmemb _) _ => True
  | .not rhs => rhs.Direct
  | .op lhs _ rhs => lhs.Direct ∧ rhs.Direct

instance Expression.decidableDirect : ∀ e : Expression, Decidable e.Direct
  | .length (.field _ afterVarsized) _ => inferInstanceAs (Decidable (afterVarsized = false))
  | .length (.nmemb _) _ => inferInstanceAs (Decidable True)
  | .not rhs => rhs.decidableDirect
  | .op lhs _ rhs =>
    have := lhs.decidableDirect
    have := rhs.decidableDirect
    inferInstanceAs (Decidable (_ ∧ _))

/-! ### Its value -/

variable {scope : CScope} {number : String → CInt} {place : Place}

theorem Length.eval_emit {len : Length}
    (hfield : ∀ name, len = .field name false → scope.field place name = number name)
    (haccessor : ∀ name, len = .field name true → scope.accessor place name = number name) :
    (len.emit place).eval scope = len.value number := by
  cases len with
  | field name afterVarsized =>
    cases afterVarsized with
    | false => exact hfield name rfl
    | true => exact haccessor name rfl
  | nmemb n => rfl

/-- **The C expression has the value of the expression**, when names, and accessors if there are
any, have those of the fields. -/
theorem Expression.eval_emit (hfield : ∀ name, scope.field place name = number name)
    {e : Expression}
    (haccessor : ¬ e.Direct → ∀ name, scope.accessor place name = number name) :
    (e.emit place).eval scope = e.value number := by
  induction e with
  | length len bitfield =>
    have hlen : (len.emit place).eval scope = len.value number := by
      refine Length.eval_emit (fun name _ => hfield name) fun name h => haccessor ?_ name
      rw [h]
      exact Bool.noConfusion
    cases bitfield with
    | false => exact hlen
    | true =>
      rw [emit, CExpr.eval, hlen, value, CInt.int, ← toNat_popcount, BitVec.ofNat_toNat,
        BitVec.setWidth_eq]
  | not rhs ih => rw [emit, CExpr.eval, ih haccessor, value]
  | op lhs operator rhs ihl ihr =>
    rw [emit, CExpr.eval, ihl fun h => haccessor fun hdirect => h hdirect.1,
      ihr fun h => haccessor fun hdirect => h hdirect.2, value]

end Xcb.CClient
