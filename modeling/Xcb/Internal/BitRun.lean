import Mathlib.Data.BitVec
import Mathlib.Tactic.Ring

/-!
# Runs of bits

A mask whose bits form one contiguous run, and a base that has no bit in common with it. The values
`base ||| x` with `x` inside the mask are told apart by `x`, and the multiples of the mask's lowest
bit walk through the mask from its lower end to its upper end.

## Main results

* `BitRun.IsRun.lowest` — `mask &&& -mask` is the lowest bit of the run
* `BitRun.IsRun.multiple_and_not` — the multiples of it that lie inside the mask
* `BitRun.or_and_not` and `BitRun.or_and` — the two parts of `x ||| base`
-/

namespace BitRun

variable {n : ℕ} {mask base x y : BitVec n} {position width k : ℕ}

/-- The bits of `mask` are the `width` bits from `position` on, and there is one. -/
structure IsRun (mask : BitVec n) (position width : ℕ) : Prop where
  pos : 0 < width
  le : position + width ≤ n
  bit : ∀ i, mask.getLsbD i = decide (position ≤ i ∧ i < position + width)

/-! ### A base beside the mask -/

theorem or_and_not (hx : x &&& ~~~mask = 0) (hbase : base &&& mask = 0) :
    (x ||| base) &&& ~~~mask = base := by
  apply BitVec.eq_of_getLsbD_eq
  intro i hi
  have h₁ := congrArg (BitVec.getLsbD · i) hx
  have h₂ := congrArg (BitVec.getLsbD · i) hbase
  simp only [BitVec.getLsbD_and, BitVec.getLsbD_or, BitVec.getLsbD_not, hi, decide_true,
    Bool.true_and, BitVec.ofNat_eq_ofNat, BitVec.getLsbD_zero] at h₁ h₂ ⊢
  revert h₁ h₂
  cases mask.getLsbD i <;> cases base.getLsbD i <;> cases x.getLsbD i <;> simp

theorem or_and (hx : x &&& ~~~mask = 0) (hbase : base &&& mask = 0) :
    (x ||| base) &&& mask = x := by
  apply BitVec.eq_of_getLsbD_eq
  intro i hi
  have h₁ := congrArg (BitVec.getLsbD · i) hx
  have h₂ := congrArg (BitVec.getLsbD · i) hbase
  simp only [BitVec.getLsbD_and, BitVec.getLsbD_or, BitVec.getLsbD_not, hi, decide_true,
    Bool.true_and, BitVec.ofNat_eq_ofNat, BitVec.getLsbD_zero] at h₁ h₂ ⊢
  revert h₁ h₂
  cases mask.getLsbD i <;> cases base.getLsbD i <;> cases x.getLsbD i <;> simp

theorem or_injective (hx : x &&& ~~~mask = 0) (hy : y &&& ~~~mask = 0)
    (hbase : base &&& mask = 0) (h : x ||| base = y ||| base) : x = y := by
  rw [← or_and hx hbase, h, or_and hy hbase]

/-- What has the base outside the mask has all of the base. -/
theorem or_of_and_not (h : x &&& ~~~mask = base) : x ||| base = x := by
  apply BitVec.eq_of_getLsbD_eq
  intro i hi
  have h₁ := congrArg (BitVec.getLsbD · i) h
  simp only [BitVec.getLsbD_and, BitVec.getLsbD_or, BitVec.getLsbD_not, hi, decide_true,
    Bool.true_and] at h₁ ⊢
  rw [← h₁]
  cases x.getLsbD i <;> simp

/-- Outside the mask, `x ||| base` is the base if and only if `x` has no bits beside the base. -/
theorem or_and_not_of_and_eq_zero (hx : x &&& mask = 0) (hbase : base &&& mask = 0) :
    (x ||| base) &&& ~~~mask = base ↔ x &&& ~~~base = 0 := by
  have hbit : ∀ i < n, ((x ||| base) &&& ~~~mask).getLsbD i = base.getLsbD i ↔
      (x &&& ~~~base).getLsbD i = (0 : BitVec n).getLsbD i := by
    intro i hi
    have h₁ := congrArg (BitVec.getLsbD · i) hx
    have h₂ := congrArg (BitVec.getLsbD · i) hbase
    simp only [BitVec.getLsbD_and, BitVec.getLsbD_or, BitVec.getLsbD_not, hi, decide_true,
      Bool.true_and, BitVec.ofNat_eq_ofNat, BitVec.getLsbD_zero] at h₁ h₂ ⊢
    revert h₁ h₂
    cases mask.getLsbD i <;> cases base.getLsbD i <;> cases x.getLsbD i <;> simp
  constructor
  · intro h
    exact BitVec.eq_of_getLsbD_eq fun i hi => (hbit i hi).mp (by rw [h])
  · intro h
    exact BitVec.eq_of_getLsbD_eq fun i hi => (hbit i hi).mpr (by rw [h])

/-! ### The run -/

namespace IsRun

variable (h : IsRun mask position width)
include h

/-- The lowest bit. -/
theorem lowest : mask &&& -mask = BitVec.twoPow n position := by
  have hpos := h.pos
  have hle := h.le
  apply BitVec.eq_of_getLsbD_eq
  intro i hi
  have hbelow : (∃ j < i, mask.getLsbD j = true) ↔ position < i := by
    constructor
    · rintro ⟨j, hj, hbit⟩
      rw [h.bit, decide_eq_true_eq] at hbit
      omega
    · intro hlt
      exact ⟨position, hlt, by rw [h.bit, decide_eq_true_eq]; omega⟩
  rw [BitVec.getLsbD_and, BitVec.getLsbD_neg, BitVec.getLsbD_twoPow, h.bit, Bool.eq_iff_iff]
  simp only [hbelow, hi, decide_true, Bool.true_and, Bool.and_eq_true, decide_eq_true_eq,
    bne_iff_ne, ne_eq, decide_eq_decide]
  omega

theorem toNat_lowest : (BitVec.twoPow n position).toNat = 2 ^ position :=
  BitVec.toNat_twoPow_of_lt (by have := h.pos; have := h.le; omega)

/-- The mask as a number. -/
theorem toNat_eq : mask.toNat = (2 ^ width - 1) * 2 ^ position := by
  apply Nat.eq_of_testBit_eq
  intro i
  rw [BitVec.testBit_toNat, h.bit, Nat.testBit_mul_two_pow, Nat.testBit_two_pow_sub_one,
    Bool.eq_iff_iff]
  simp only [decide_eq_true_eq, Bool.and_eq_true]
  omega

theorem multiple_toNat (k : ℕ) :
    (BitVec.ofNat n k * BitVec.twoPow n position).toNat = k * 2 ^ position % 2 ^ n := by
  rw [BitVec.toNat_mul, BitVec.toNat_ofNat, h.toNat_lowest, Nat.mod_mul_mod]

/-- The multiples of the lowest bit from `0` to the mask lie inside the mask. -/
theorem multiple_and_not (hk : k < 2 ^ width) :
    BitVec.ofNat n k * BitVec.twoPow n position &&& ~~~mask = 0 := by
  apply BitVec.eq_of_getLsbD_eq
  intro i hi
  rw [BitVec.getLsbD_and, BitVec.getLsbD_not, h.bit, ← BitVec.testBit_toNat,
    h.multiple_toNat, Nat.testBit_mod_two_pow, Nat.testBit_mul_two_pow]
  simp only [hi, decide_true, Bool.true_and, BitVec.ofNat_eq_ofNat, BitVec.getLsbD_zero]
  by_cases hout : position ≤ i ∧ i < position + width
  · simp [hout]
  · by_cases hlow : position ≤ i
    · have hzero : k.testBit (i - position) = false :=
        Nat.testBit_lt_two_pow (hk.trans_le (Nat.pow_le_pow_right two_pos (by omega)))
      simp [hzero]
    · simp [hlow]

/-- The multiple after the last one has no bit inside the mask. -/
theorem end_and :
    BitVec.ofNat n (2 ^ width) * BitVec.twoPow n position &&& mask = 0 := by
  apply BitVec.eq_of_getLsbD_eq
  intro i hi
  rw [BitVec.getLsbD_and, h.bit, ← BitVec.testBit_toNat, h.multiple_toNat,
    Nat.testBit_mod_two_pow, ← pow_add, Nat.testBit_two_pow]
  simp only [hi, decide_true, Bool.true_and, BitVec.ofNat_eq_ofNat, BitVec.getLsbD_zero,
    Bool.and_eq_false_iff, decide_eq_false_iff_not]
  omega

end IsRun

end BitRun
