import Mathlib.Data.BitVec
import Mathlib.Tactic.Ring

/-!
# `xcb_popcount`

The number of set bits of a value mask, without a loop. The mask is read as octal digits. Taking its
half and its quarter away from each digit leaves the number of the digit's bits; adding neighbours
and keeping every second sum gives digits to the base `64`, whose sum is the remainder modulo `63`.

## Main definitions

* `popcount` — `xcb_popcount`
* `setBits` — how many bits a mask has
* `Octal.mapDigits` — a function applied to each octal digit

## Main results

* `toNat_popcount` — the two agree
-/

namespace Xcb

/-- `xcb_popcount`. -/
def popcount (mask : BitVec 32) : BitVec 32 :=
  let y := (mask >>> 1) &&& 0o33333333333
  let y := mask - y - ((y >>> 1) &&& 0o33333333333)
  ((y + (y >>> 3)) &&& 0o30707070707) % 0o77

/-- The number of set bits. -/
def setBits (mask : BitVec 32) : ℕ :=
  (List.range 32).countP mask.getLsbD

/-! ### Octal digits -/

namespace Octal

/-- `n` digits `3`. -/
def threes : ℕ → ℕ
  | 0 => 0
  | n + 1 => 3 + 8 * threes n

/-- `n` digits of `x`, with `f` applied to each. -/
def mapDigits (f : ℕ → ℕ) : ℕ → ℕ → ℕ
  | 0, _ => 0
  | n + 1, x => f (x % 8) + 8 * mapDigits f n (x / 8)

/-- The sum of the digits. -/
def sumDigits (f : ℕ → ℕ) : ℕ → ℕ → ℕ
  | 0, _ => 0
  | n + 1, x => f (x % 8) + sumDigits f n (x / 8)

/-- A digit `3` and below it the digits `07`, `k` times. -/
def sevens : ℕ → ℕ
  | 0 => 3
  | k + 1 => 7 + 64 * sevens k

/-- The bits of a digit. -/
def bits (d : ℕ) : ℕ :=
  d - d / 2 - d / 4

theorem bits_eq (x : ℕ) : bits (x % 8) = x % 2 + x / 2 % 2 + x / 4 % 2 := by
  unfold bits
  omega

theorem bits_le (x : ℕ) : bits (x % 8) ≤ 3 := by
  unfold bits
  omega

theorem and_add_mul (x m c k : ℕ) (hc : c < 2 ^ k) :
    x &&& (c + 2 ^ k * m) = (x % 2 ^ k &&& c) + 2 ^ k * (x / 2 ^ k &&& m) := by
  have hmod : (x &&& (c + 2 ^ k * m)) % 2 ^ k = x % 2 ^ k &&& c := by
    rw [Nat.and_mod_two_pow, Nat.add_mul_mod_self_left, Nat.mod_eq_of_lt hc]
  have hdiv : (x &&& (c + 2 ^ k * m)) / 2 ^ k = x / 2 ^ k &&& m := by
    rw [Nat.and_div_two_pow, Nat.add_mul_div_left _ _ (Nat.two_pow_pos k), Nat.div_eq_of_lt hc,
      zero_add]
  rw [← hmod, ← hdiv, Nat.mod_add_div]

/-- Halving each digit. -/
theorem half_and (n x : ℕ) : x / 2 &&& threes n = mapDigits (· / 2) n x := by
  induction n generalizing x with
  | zero => exact Nat.and_zero _
  | succ n ih =>
    have hdigit : x / 2 % 2 ^ 3 &&& 3 = x % 8 / 2 := by
      rw [show 3 = 2 ^ 2 - 1 from rfl, Nat.and_two_pow_sub_one_eq_mod]
      omega
    have hrest : x / 2 / 2 ^ 3 = x / 8 / 2 := by omega
    have hsplit := and_add_mul (x / 2) (threes n) 3 3 (by decide)
    rw [hdigit, hrest, ih] at hsplit
    exact hsplit

theorem mapDigits_mapDigits {f g : ℕ → ℕ} (hf : ∀ d < 8, f d < 8) (n x : ℕ) :
    mapDigits g n (mapDigits f n x) = mapDigits (g ∘ f) n x := by
  induction n generalizing x with
  | zero => rfl
  | succ n ih =>
    have hlt := hf (x % 8) (Nat.mod_lt _ (by norm_num))
    rw [mapDigits, mapDigits, mapDigits, Nat.add_mul_mod_self_left, Nat.mod_eq_of_lt hlt,
      Nat.add_mul_div_left _ _ (by norm_num), Nat.div_eq_of_lt hlt, zero_add, ih]
    rfl

/-- A number is its bits, its halves and its quarters, digit by digit. -/
theorem mapDigits_bits (n x : ℕ) (hx : x < 8 ^ n) :
    mapDigits bits n x + mapDigits (· / 2) n x + mapDigits ((· / 2) ∘ (· / 2)) n x = x := by
  induction n generalizing x with
  | zero =>
    rw [pow_zero] at hx
    rw [mapDigits, mapDigits, mapDigits]
    omega
  | succ n ih =>
    have hrest := ih (x / 8) (by rw [pow_succ] at hx; omega)
    have hdigit : bits (x % 8) + x % 8 / 2 + x % 8 / 2 / 2 = x % 8 := by
      unfold bits
      omega
    simp only [mapDigits, Function.comp_apply] at hrest ⊢
    omega

theorem mapDigits_bits_mod (n x : ℕ) : mapDigits bits n x % 8 ≤ 3 := by
  cases n with
  | zero => exact Nat.zero_le _
  | succ n =>
    have hle := bits_le x
    rw [mapDigits]
    omega

theorem mapDigits_bits_le (n x : ℕ) : mapDigits bits n x ≤ threes n := by
  induction n generalizing x with
  | zero => exact Nat.zero_le _
  | succ n ih =>
    have hle := bits_le x
    have hrest := ih (x / 8)
    rw [mapDigits, threes]
    omega

theorem sumDigits_bits_le (n x : ℕ) : sumDigits bits n x ≤ 3 * n := by
  induction n generalizing x with
  | zero => exact Nat.zero_le _
  | succ n ih =>
    have hle := bits_le x
    have hrest := ih (x / 8)
    rw [sumDigits]
    omega

theorem countP_testBit_succ (n x : ℕ) :
    (List.range (n + 1)).countP x.testBit = x % 2 + (List.range n).countP (x / 2).testBit := by
  have hbit : (if x.testBit 0 = true then 1 else 0) = x % 2 := by
    rw [Nat.testBit_zero]
    rcases Nat.mod_two_eq_zero_or_one x with h | h <;> rw [h] <;> rfl
  rw [List.range_succ_eq_map, List.countP_cons, List.countP_map, hbit, add_comm]
  congr 2
  funext i
  exact Nat.testBit_succ x i

/-- The bits of the digits are the bits of the number. -/
theorem sumDigits_bits (n x : ℕ) :
    sumDigits bits n x = (List.range (3 * n)).countP x.testBit := by
  induction n generalizing x with
  | zero => rfl
  | succ n ih =>
    rw [show 3 * (n + 1) = 3 * n + 1 + 1 + 1 by ring, countP_testBit_succ, countP_testBit_succ,
      countP_testBit_succ, Nat.div_div_eq_div_mul, Nat.div_div_eq_div_mul, sumDigits, ih, bits_eq]
    ring

/-- Neighbours are added, and every second sum is kept: a number to the base `64` with the sum of
all digits as its own. -/
theorem sevens_and (k x : ℕ) :
    (mapDigits bits (2 * k + 1) x + mapDigits bits (2 * k + 1) x / 8 &&& sevens k) % 63 =
      sumDigits bits (2 * k + 1) x % 63 := by
  induction k generalizing x with
  | zero =>
    have hle := bits_le x
    simp only [mapDigits, sumDigits, sevens]
    rw [show 3 = 2 ^ 2 - 1 from rfl, Nat.and_two_pow_sub_one_eq_mod]
    omega
  | succ k ih =>
    have hrest := ih (x / 8 / 8)
    have h₀ := bits_le x
    have h₁ := bits_le (x / 8)
    have h₂ := mapDigits_bits_mod (2 * k + 1) (x / 8 / 8)
    have hdigits : mapDigits bits (2 * (k + 1) + 1) x = bits (x % 8) +
        8 * (bits (x / 8 % 8) + 8 * mapDigits bits (2 * k + 1) (x / 8 / 8)) := rfl
    have hsum : sumDigits bits (2 * (k + 1) + 1) x = bits (x % 8) +
        (bits (x / 8 % 8) + sumDigits bits (2 * k + 1) (x / 8 / 8)) := rfl
    rw [hdigits, hsum]
    generalize bits (x % 8) = d₀ at h₀ ⊢
    generalize bits (x / 8 % 8) = d₁ at h₁ ⊢
    generalize mapDigits bits (2 * k + 1) (x / 8 / 8) = y at h₂ hrest ⊢
    generalize sumDigits bits (2 * k + 1) (x / 8 / 8) = total at hrest ⊢
    have hsplit := and_add_mul (d₀ + 8 * (d₁ + 8 * y) + (d₀ + 8 * (d₁ + 8 * y)) / 8) (sevens k)
      7 6 (by decide)
    have hlow : (d₀ + 8 * (d₁ + 8 * y) + (d₀ + 8 * (d₁ + 8 * y)) / 8) % 2 ^ 6 &&& 7 = d₀ + d₁ := by
      rw [show 7 = 2 ^ 3 - 1 from rfl, Nat.and_two_pow_sub_one_eq_mod]
      omega
    have hhigh : (d₀ + 8 * (d₁ + 8 * y) + (d₀ + 8 * (d₁ + 8 * y)) / 8) / 2 ^ 6 = y + y / 8 := by
      omega
    rw [hlow, hhigh] at hsplit
    rw [sevens, show 64 = 2 ^ 6 from rfl, hsplit]
    omega

end Octal

/-- **The number of set bits**, for every mask. -/
theorem toNat_popcount (mask : BitVec 32) : (popcount mask).toNat = setBits mask := by
  have hlt : mask.toNat < 8 ^ 11 := lt_of_lt_of_le mask.isLt (by decide)
  have hsum := Octal.mapDigits_bits 11 mask.toNat hlt
  have hhalf : ((mask >>> 1) &&& (0o33333333333 : BitVec 32)).toNat =
      Octal.mapDigits (· / 2) 11 mask.toNat := by
    rw [BitVec.toNat_and, BitVec.toNat_ushiftRight, Nat.shiftRight_eq_div_pow, pow_one]
    exact Octal.half_and 11 mask.toNat
  have hquarter :
      (((mask >>> 1) &&& (0o33333333333 : BitVec 32)) >>> 1 &&& (0o33333333333 : BitVec 32)).toNat =
      Octal.mapDigits ((· / 2) ∘ (· / 2)) 11 mask.toNat := by
    rw [BitVec.toNat_and, BitVec.toNat_ushiftRight, Nat.shiftRight_eq_div_pow, pow_one, hhalf]
    rw [← Octal.mapDigits_mapDigits (fun d hd => by omega)]
    exact Octal.half_and 11 _
  have hy : (mask - ((mask >>> 1) &&& (0o33333333333 : BitVec 32)) -
      (((mask >>> 1) &&& (0o33333333333 : BitVec 32)) >>> 1 &&&
      (0o33333333333 : BitVec 32))).toNat =
      Octal.mapDigits Octal.bits 11 mask.toNat := by
    rw [← hhalf, ← hquarter] at hsum
    bv_omega
  have hle : Octal.mapDigits Octal.bits 11 mask.toNat ≤ 3681400539 :=
    Octal.mapDigits_bits_le 11 mask.toNat
  have hpairs : ∀ y : BitVec 32, y.toNat ≤ 3681400539 →
      (y + (y >>> 3)).toNat = y.toNat + y.toNat / 8 := by
    intro y hy
    bv_omega
  have hcount : setBits mask = Octal.sumDigits Octal.bits 11 mask.toNat := by
    rw [Octal.sumDigits_bits, show 3 * 11 = 32 + 1 from rfl, List.range_succ, List.countP_append,
      List.countP_singleton, Nat.testBit_lt_two_pow mask.isLt]
    rfl
  have hsmall : Octal.sumDigits Octal.bits 11 mask.toNat < 63 :=
    (Octal.sumDigits_bits_le 11 mask.toNat).trans_lt (by decide)
  rw [popcount, BitVec.toNat_umod, BitVec.toNat_and, hpairs _ (hy.trans_le hle), hy, hcount]
  change (_ &&& Octal.sevens 5) % 63 = _
  exact (Octal.sevens_and 5 mask.toNat).trans (Nat.mod_eq_of_lt hsmall)

end Xcb
