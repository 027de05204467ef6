import Mathlib.Data.List.Basic
import Mathlib.Data.Nat.Notation

/-!
# Tables of ranges

A list of ranges of naturals, each with a value, in increasing order. A range may be open: it has
no end yet. Numbers are looked up in increasing order too, so that ranges below the current number
can be retired from the front, and a number is decided by the first range that is left.

## Main definitions

* `Ranges.lookup` — the range that decides a number
* `Ranges.retire` — forget what ends at or below a number
* `Ranges.Ordered` — no range begins before the end of an earlier one

## Main results

* `Ranges.lookup_retire`, `Ranges.lookup_eq_head` — retiring is not seen, and leaves the answer in
  front
* `Ranges.lookup_append_of_lt`, `Ranges.lookup_append_of_none` — new ranges at the end
* `Ranges.lookup_close` — the open range gets its end
* `Ranges.Ordered.retire` — what is left ends above the number
-/

namespace Ranges

variable {α : Type*}

/-- A range and its value. -/
structure Range (α : Type*) where
  first : ℕ
  last : Option ℕ
  value : α

/-- Does the range end at or above `n`? -/
def Range.reaches (n : ℕ) (r : Range α) : Bool := r.last.all (n ≤ ·)

/-- The first range that ends at or above `n`, if it contains `n`. -/
def lookup (n : ℕ) (rs : List (Range α)) : Option (Range α) :=
  (rs.find? (·.reaches n)).filter (·.first ≤ n)

/-- Drop ranges that end at or below `n`, from the front. -/
def retire (n : ℕ) (rs : List (Range α)) : List (Range α) :=
  rs.dropWhile fun r => r.last.any (· ≤ n)

theorem reaches_succ (n : ℕ) (r : Range α) : r.reaches (n + 1) = !r.last.any (· ≤ n) := by
  cases h : r.last with
  | none => simp [Range.reaches, h]
  | some l =>
    have hiff : n + 1 ≤ l ↔ ¬ l ≤ n := by omega
    simp only [Range.reaches, h, Option.all_some, Option.any_some, hiff, decide_not]

theorem reaches_of_le {m n : ℕ} (h : m ≤ n) {r : Range α} (hr : r.reaches n = true) :
    r.reaches m = true := by
  cases hl : r.last with
  | none => simp [Range.reaches, hl]
  | some l =>
    simp only [Range.reaches, hl, Option.all_some, decide_eq_true_eq] at hr ⊢
    omega

/-- A retired range ends below `n`. -/
theorem lookup_retire {m n : ℕ} (h : m < n) (rs : List (Range α)) :
    lookup n (retire m rs) = lookup n rs := by
  induction rs with
  | nil => rfl
  | cons r rs ih =>
    rw [retire, List.dropWhile_cons]
    split
    · next hretired =>
      have hreach : r.reaches n = false := by
        rw [← Bool.not_eq_true]
        intro hr
        have := reaches_of_le (Nat.succ_le_of_lt h) hr
        rw [reaches_succ, hretired] at this
        cases this
      rw [← retire, ih, lookup, lookup, List.find?_cons_of_neg (by simp [hreach])]
    · rfl

/-- After retiring everything below `n + 1`, only the head can decide it. -/
theorem lookup_eq_head (n : ℕ) (rs : List (Range α)) :
    lookup (n + 1) rs = (retire n rs).head?.filter (·.first ≤ n + 1) := by
  induction rs with
  | nil => rfl
  | cons r rs ih =>
    rw [retire, List.dropWhile_cons]
    split
    · next hretired =>
      rw [← retire, ← ih, lookup, lookup,
        List.find?_cons_of_neg (by rw [reaches_succ, hretired]; decide)]
    · next hleft =>
      have hreach : r.reaches (n + 1) = true := by
        rw [reaches_succ, Bool.eq_false_iff.mpr hleft]
        rfl
      rw [lookup, List.find?_cons_of_pos hreach]
      rfl

/-- Ranges above `n` do not decide it. -/
theorem lookup_append_of_lt {n : ℕ} (rs : List (Range α)) {new : List (Range α)}
    (h : ∀ r ∈ new, n < r.first) : lookup n (rs ++ new) = lookup n rs := by
  rw [lookup, lookup, List.find?_append]
  cases hold : rs.find? (·.reaches n) with
  | some r => rfl
  | none =>
    cases hnew : new.find? (·.reaches n) with
    | none => rfl
    | some r =>
      have hlt := h r (List.mem_of_find?_eq_some hnew)
      simp [Option.filter, Nat.not_le.mpr hlt]

/-- Ranges that end below `n` do not decide it. -/
theorem lookup_append_of_none {n : ℕ} {rs : List (Range α)} (new : List (Range α))
    (h : ∀ r ∈ rs, r.reaches n = false) : lookup n (rs ++ new) = lookup n new := by
  have hnone : rs.find? (·.reaches n) = none := List.find?_eq_none.mpr fun r hr => by simp [h r hr]
  rw [lookup, lookup, List.find?_append, hnone, Option.none_or]

theorem lookup_eq_none {n : ℕ} {rs : List (Range α)} (h : ∀ r ∈ rs, r.reaches n = false) :
    lookup n rs = none := by
  rw [← List.append_nil rs, lookup_append_of_none [] h]
  rfl

/-- A range at the end that contains `n` decides it if no other does. -/
theorem lookup_append_of_contains {n : ℕ} {rs : List (Range α)} (h : ∀ q ∈ rs, q.first ≤ n)
    {r : Range α} (hfirst : r.first ≤ n) (hr : r.reaches n = true) :
    lookup n (rs ++ [r]) = (lookup n rs).or (some r) := by
  rw [lookup, lookup, List.find?_append, List.find?_cons_of_pos hr]
  cases hold : rs.find? (·.reaches n) with
  | some q =>
    have hq := h q (List.mem_of_find?_eq_some hold)
    simp [Option.filter, hq]
  | none => simp [Option.filter, hfirst]

/-- Giving an open range an end changes nothing below the end. -/
theorem lookup_close {n m : ℕ} (h : n ≤ m) (rs : List (Range α)) (first : ℕ) (value : α) :
    (lookup n (rs ++ [⟨first, some m, value⟩])).map (·.value) =
      (lookup n (rs ++ [⟨first, none, value⟩])).map (·.value) := by
  rw [lookup, lookup, List.find?_append, List.find?_append,
    List.find?_cons_of_pos (by simpa [Range.reaches] using h),
    List.find?_cons_of_pos (by simp [Range.reaches])]
  cases rs.find? (·.reaches n) with
  | some q => rfl
  | none => by_cases hfirst : first ≤ n <;> simp [Option.filter, hfirst]

/-- An open range is not retired. -/
theorem retire_append_open (n : ℕ) (rs : List (Range α)) (first : ℕ) (value : α) :
    retire n (rs ++ [⟨first, none, value⟩]) = retire n rs ++ [⟨first, none, value⟩] := by
  induction rs with
  | nil => rfl
  | cons r rs ih =>
    rw [retire, retire, List.cons_append, List.dropWhile_cons, List.dropWhile_cons]
    split
    · exact ih
    · rfl

/-! ### Order -/

/-- Ranges follow each other; they may touch in one number. -/
def Ordered (rs : List (Range α)) : Prop :=
  rs.Pairwise fun r q => ∃ l, r.last = some l ∧ l ≤ q.first

/-- Every range ends at or above its beginning. -/
def Proper (rs : List (Range α)) : Prop := ∀ r ∈ rs, ∀ l ∈ r.last, r.first ≤ l

/-- Everything that is left ends above `n`, once something has been left. -/
theorem Ordered.retire {rs : List (Range α)} (h : Ordered rs) (hproper : Proper rs) {n : ℕ} :
    ∀ r ∈ retire n rs, r.reaches (n + 1) = true := by
  intro r hr
  cases hleft : Ranges.retire n rs with
  | nil =>
    rw [hleft] at hr
    cases hr
  | cons q qs =>
    have hq : q.reaches (n + 1) = true := by
      have := List.head?_dropWhile_not (fun r : Range α => r.last.any (· ≤ n)) rs
      rw [show rs.dropWhile _ = q :: qs from hleft] at this
      rw [reaches_succ]
      simpa using this
    have hsub : (q :: qs).Sublist rs := by
      rw [← hleft]
      exact List.dropWhile_sublist _
    rw [hleft] at hr
    rcases List.mem_cons.mp hr with rfl | hlater
    · exact hq
    · obtain ⟨l, hl, hle⟩ := (List.pairwise_cons.mp (h.sublist hsub)).1 r hlater
      simp only [Range.reaches, hl, Option.all_some, decide_eq_true_eq] at hq
      cases hrl : r.last with
      | none => simp [Range.reaches, hrl]
      | some m =>
        have := hproper r (hsub.subset (List.mem_cons_of_mem _ hlater)) m hrl
        simp only [Range.reaches, hrl, Option.all_some, decide_eq_true_eq]
        omega

end Ranges
