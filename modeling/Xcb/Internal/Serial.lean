import Mathlib.Data.BitVec
import Mathlib.Tactic.Ring
import Mathlib.Tactic.Linarith

/-!
# Serial-number arithmetic

Counters of a fixed width `w` that stand for naturals, and are compared in one of two ways.

* By the sign of their wrapped difference. That is not an order: it agrees with the order of the
  naturals only while these lie within half the range of each other (`dist_ofNat`), or of a common
  base (`dist_eq_of_window`).
* As signed numbers. That is an order: it agrees with the order of the naturals only while, besides,
  the difference of the signed numbers does not wrap (`Fits.toInt_sub_toInt`).

## Main definitions

* `Serial.dist` — the signed wrapped difference of two counters
* `Serial.Fits` — the difference of two counters, as signed numbers, does not wrap
* `Serial.offset` — how far a counter lies above a base, unsigned
-/

namespace Serial

variable {w : ℕ}

/-- The wrapped difference `a - b`, read as a signed number. -/
def dist (a b : BitVec w) : ℤ := (a - b).toInt

@[simp] theorem dist_self (a : BitVec w) : dist a a = 0 := by simp [dist]

theorem two_pow_eq (hw : 0 < w) : (2 : ℤ) ^ w = 2 * 2 ^ (w - 1) := by
  rw [← pow_succ']
  congr 1
  omega

/-! ### Counters of two naturals -/

/-- Inside the window the wrapped difference is the true one. -/
theorem dist_ofNat {m n : ℕ} (hw : 0 < w) (hlo : n ≤ m + 2 ^ (w - 1))
    (hhi : m < n + 2 ^ (w - 1)) : dist (BitVec.ofNat w m) (BitVec.ofNat w n) = (m : ℤ) - n := by
  have hpow := two_pow_eq hw
  have hlo' : (n : ℤ) ≤ m + 2 ^ (w - 1) := by exact_mod_cast hlo
  have hhi' : (m : ℤ) < n + 2 ^ (w - 1) := by exact_mod_cast hhi
  rw [dist, BitVec.toInt_sub, BitVec.toInt_ofNat', BitVec.toInt_ofNat', Int.sub_bmod_bmod,
    Int.bmod_sub_bmod]
  refine Int.bmod_eq_of_le_mul_two ?_ ?_
  · push_cast
    rw [hpow]
    linarith
  · push_cast
    rw [hpow]
    linarith

/-- Numbers less than the whole range apart have equal counters only when they are equal. -/
theorem ofNat_inj {m n : ℕ} (hlo : n < m + 2 ^ w) (hhi : m < n + 2 ^ w) :
    BitVec.ofNat w m = BitVec.ofNat w n ↔ m = n := by
  refine ⟨fun h => ?_, fun h => by rw [h]⟩
  have hmod : m % 2 ^ w = n % 2 ^ w := by simpa [← BitVec.toNat_inj] using h
  rcases Nat.le_total m n with hle | hle
  · obtain ⟨d, rfl⟩ := Nat.exists_eq_add_of_le hle
    have hd : 2 ^ w ∣ d := by simpa using (Nat.modEq_iff_dvd' hle).mp hmod
    have := Nat.eq_zero_of_dvd_of_lt hd (by omega)
    omega
  · obtain ⟨d, rfl⟩ := Nat.exists_eq_add_of_le hle
    have hd : 2 ^ w ∣ d := by simpa using (Nat.modEq_iff_dvd' hle).mp (Eq.symm hmod)
    have := Nat.eq_zero_of_dvd_of_lt hd (by omega)
    omega

/-! ### Counters as signed numbers -/

/-- The difference of the two signed numbers is a signed number. -/
def Fits (a b : BitVec w) : Prop :=
  -2 ^ (w - 1) ≤ a.toInt - b.toInt ∧ a.toInt - b.toInt < 2 ^ (w - 1)

instance (a b : BitVec w) : Decidable (Fits a b) := inferInstanceAs (Decidable (_ ∧ _))

theorem Fits.refl (a : BitVec w) : Fits a a := by
  rw [Fits, sub_self, neg_nonpos]
  exact ⟨by positivity, by positivity⟩

/-- Naturals in the lower half of the range are the signed numbers. -/
theorem toInt_ofNat_of_lt {n : ℕ} (hw : 0 < w) (hn : n < 2 ^ (w - 1)) :
    (BitVec.ofNat w n).toInt = n := by
  have hpow := two_pow_eq hw
  zify at hn
  rw [BitVec.toInt_ofNat']
  refine Int.bmod_eq_of_le_mul_two ?_ ?_ <;> push_cast <;> linarith

theorem fits_of_lt {m n : ℕ} (hw : 0 < w) (hm : m < 2 ^ (w - 1)) (hn : n < 2 ^ (w - 1)) :
    Fits (BitVec.ofNat w m) (BitVec.ofNat w n) := by
  rw [Fits, toInt_ofNat_of_lt hw hm, toInt_ofNat_of_lt hw hn]
  zify at hm hn
  exact ⟨by linarith, by linarith⟩

/-- Then it does not wrap. -/
theorem Fits.dist_eq {a b : BitVec w} (h : Fits a b) (hw : 0 < w) :
    dist a b = a.toInt - b.toInt := by
  have hpow := two_pow_eq hw
  obtain ⟨hlo, hhi⟩ := h
  rw [dist, BitVec.toInt_sub]
  refine Int.bmod_eq_of_le_mul_two ?_ ?_ <;> push_cast <;> linarith

/-- **The signed numbers** are as far apart as the naturals, when those are close and the difference
does not wrap. -/
theorem Fits.toInt_sub_toInt {m n : ℕ} (h : Fits (BitVec.ofNat w m) (BitVec.ofNat w n))
    (hw : 0 < w) (hlo : n ≤ m + 2 ^ (w - 1)) (hhi : m < n + 2 ^ (w - 1)) :
    (BitVec.ofNat w m).toInt - (BitVec.ofNat w n).toInt = (m : ℤ) - n := by
  rw [← h.dist_eq hw, dist_ofNat hw hlo hhi]

/-- It does not matter which of two close naturals is subtracted. -/
theorem Fits.symm {m n : ℕ} (h : Fits (BitVec.ofNat w m) (BitVec.ofNat w n)) (hw : 0 < w)
    (hlo : n < m + 2 ^ (w - 1)) (hhi : m < n + 2 ^ (w - 1)) :
    Fits (BitVec.ofNat w n) (BitVec.ofNat w m) := by
  have hsub := h.toInt_sub_toInt hw hlo.le hhi
  zify at hlo hhi
  exact ⟨by linarith, by linarith⟩

/-- The wrapped comparison of two signed numbers in order agrees with theirs unless the difference
wraps. -/
theorem dist_nonpos_iff {a b : BitVec w} (hw : 0 < w) (h : a.toInt ≤ b.toInt) :
    dist a b ≤ 0 ↔ Fits a b := by
  have hpow := two_pow_eq hw
  have hhalf : (0 : ℤ) < 2 ^ (w - 1) := by positivity
  have hlo := BitVec.le_two_mul_toInt (x := a)
  have hhi := BitVec.two_mul_toInt_lt (x := b)
  by_cases hfits : -2 ^ (w - 1) ≤ a.toInt - b.toInt
  · have hfits : Fits a b := ⟨hfits, by linarith⟩
    rw [hfits.dist_eq hw]
    exact iff_of_true (by linarith) hfits
  · have hturn : dist a b = a.toInt - b.toInt + 2 ^ w := by
      rw [dist, BitVec.toInt_sub, ← Int.add_bmod_right]
      refine Int.bmod_eq_of_le_mul_two ?_ ?_ <;> push_cast <;> linarith
    rw [hturn]
    exact iff_of_false (by linarith) fun h => hfits h.1

/-! ### Counters in a half range -/

/-- How far `a` lies above `base`, going up and wrapping. -/
def offset (base a : BitVec w) : ℕ := (a - base).toNat

theorem ofNat_offset (base a : BitVec w) : BitVec.ofNat w (offset base a) = a - base := by
  rw [offset, BitVec.ofNat_toNat, BitVec.setWidth_eq]

theorem dist_eq_dist_sub (base a b : BitVec w) : dist a b = dist (a - base) (b - base) := by
  have h : a - b = (a - base) - (b - base) := by
    rw [BitVec.sub_sub, BitVec.add_comm, BitVec.sub_add_cancel]
  rw [dist, h, dist]

/-- Two counters of one half range differ by the difference of their offsets. -/
theorem dist_eq_of_window {base a b : BitVec w} (hw : 0 < w) (ha : offset base a < 2 ^ (w - 1))
    (hb : offset base b < 2 ^ (w - 1)) : dist a b = (offset base a : ℤ) - offset base b := by
  rw [dist_eq_dist_sub base, ← ofNat_offset, ← ofNat_offset,
    dist_ofNat hw (by omega) (by omega)]

end Serial
