import Mathlib.Data.List.Basic
import Mathlib.Order.Lattice

/-!
# Lists with increasing keys

A finite map that is kept as a list in the order of its keys, each key once. Entries are changed
or inserted where they belong, and forgotten from the front. What holds of the other keys is said
by filtering one key out, so that two lists that differ in one entry only are compared that way.

## Main definitions

* `Keyed.Increasing` — keys increase strictly
* `Keyed.upsert` — change the entry with a key, or insert a new one

## Main results

* `Keyed.filter_upsert_of_ne`, `Keyed.filter_upsert_self` — what happens to the other keys
* `Keyed.Increasing.dropWhile_le` — forgetting from the front is forgetting by key
-/

namespace Keyed

variable {α κ : Type*} [LinearOrder κ] {key : α → κ}

/-- The keys increase strictly. -/
def Increasing (key : α → κ) (l : List α) : Prop := l.Pairwise fun a b => key a < key b

/-- Change the entry with key `k` by `f`, or insert `new` before the first later one. -/
def upsert (key : α → κ) (k : κ) (new : α) (f : α → α) : List α → List α
  | [] => [new]
  | a :: l =>
    if k < key a then new :: a :: l
    else if key a = k then f a :: l
    else a :: upsert key k new f l

theorem Increasing.filter {l : List α} (h : Increasing key l) (p : α → Bool) :
    Increasing key (l.filter p) :=
  List.Pairwise.filter p h

theorem Increasing.eq_of_mem {l : List α} (h : Increasing key l) {a b : α} (ha : a ∈ l)
    (hb : b ∈ l) (hkey : key a = key b) : a = b := by
  induction l with
  | nil => cases ha
  | cons c l ih =>
    obtain ⟨hc, hl⟩ := List.pairwise_cons.mp h
    rcases List.mem_cons.mp ha with rfl | ha'
    · rcases List.mem_cons.mp hb with rfl | hb'
      · rfl
      · exact absurd hkey (hc b hb').ne
    · rcases List.mem_cons.mp hb with rfl | hb'
      · exact absurd hkey (hc a ha').ne'
      · exact ih hl ha' hb'

section upsert

variable {k : κ} {new : α} {f : α → α}

theorem mem_upsert {l : List α} {a : α} (h : a ∈ upsert key k new f l) :
    a = new ∨ a ∈ l ∨ ∃ b ∈ l, key b = k ∧ a = f b := by
  induction l with
  | nil => exact .inl (List.mem_singleton.mp h)
  | cons b l ih =>
    simp only [upsert] at h
    split at h
    · rcases List.mem_cons.mp h with rfl | h
      · exact .inl rfl
      · exact .inr (.inl h)
    · split at h
      · next hkey =>
        rcases List.mem_cons.mp h with rfl | h
        · exact .inr (.inr ⟨b, List.mem_cons_self, hkey, rfl⟩)
        · exact .inr (.inl (List.mem_cons_of_mem b h))
      · rcases List.mem_cons.mp h with rfl | h
        · exact .inr (.inl List.mem_cons_self)
        · rcases ih h with rfl | h | ⟨c, hc, hkey, rfl⟩
          · exact .inl rfl
          · exact .inr (.inl (List.mem_cons_of_mem b h))
          · exact .inr (.inr ⟨c, List.mem_cons_of_mem b hc, hkey, rfl⟩)

/-- The new entry, or the changed one. -/
theorem exists_mem_upsert (key : α → κ) (k : κ) (new : α) (f : α → α) (l : List α) :
    ∃ a ∈ upsert key k new f l, a = new ∨ ∃ b ∈ l, key b = k ∧ a = f b := by
  induction l with
  | nil => exact ⟨new, List.mem_singleton.mpr rfl, .inl rfl⟩
  | cons b l ih =>
    simp only [upsert]
    split
    · exact ⟨new, List.mem_cons_self, .inl rfl⟩
    · split
      · next hkey => exact ⟨f b, List.mem_cons_self, .inr ⟨b, List.mem_cons_self, hkey, rfl⟩⟩
      · obtain ⟨a, ha, hcases⟩ := ih
        refine ⟨a, List.mem_cons_of_mem b ha, hcases.imp_right ?_⟩
        rintro ⟨c, hc, hkey, rfl⟩
        exact ⟨c, List.mem_cons_of_mem b hc, hkey, rfl⟩

variable (hnew : key new = k) (hf : ∀ a, key (f a) = key a)

include hnew hf

theorem key_of_mem_upsert {l : List α} {a : α} (h : a ∈ upsert key k new f l) :
    key a = k ∨ a ∈ l := by
  rcases mem_upsert h with rfl | h | ⟨b, -, hkey, rfl⟩
  · exact .inl hnew
  · exact .inr h
  · exact .inl ((hf b).trans hkey)

theorem Increasing.upsert {l : List α} (h : Increasing key l) :
    Increasing key (Keyed.upsert key k new f l) := by
  induction l with
  | nil => exact List.pairwise_singleton _ _
  | cons b l ih =>
    obtain ⟨hb, hl⟩ := List.pairwise_cons.mp h
    simp only [Keyed.upsert]
    split
    · next hlt =>
      refine List.pairwise_cons.mpr ⟨?_, h⟩
      intro c hc
      rw [hnew]
      rcases List.mem_cons.mp hc with rfl | hc
      · exact hlt
      · exact hlt.trans (hb c hc)
    · next hge =>
      split
      · refine List.pairwise_cons.mpr ⟨?_, hl⟩
        intro c hc
        rw [hf]
        exact hb c hc
      · next hne =>
        refine List.pairwise_cons.mpr ⟨?_, ih hl⟩
        intro c hc
        rcases key_of_mem_upsert hnew hf hc with hkey | hc
        · rw [hkey]
          exact lt_of_le_of_ne (not_lt.mp hge) hne
        · exact hb c hc

/-- The other keys are not affected. -/
theorem filter_upsert_self (l : List α) :
    (upsert key k new f l).filter (fun a => key a ≠ k) = l.filter fun a => key a ≠ k := by
  induction l with
  | nil => simp [upsert, hnew]
  | cons b l ih =>
    simp only [upsert]
    split
    · rw [List.filter_cons_of_neg (by simp [hnew])]
    · split
      · next hkey =>
        rw [List.filter_cons_of_neg (by simp [hf, hkey]), List.filter_cons_of_neg (by simp [hkey])]
      · next hkey =>
        rw [List.filter_cons_of_pos (by simp [hkey]), List.filter_cons_of_pos (by simp [hkey]), ih]

/-- A key that is left out does not matter to an entry with another one. -/
theorem filter_upsert_of_ne {j : κ} (hj : j ≠ k) {l : List α} (h : Increasing key l) :
    (upsert key k new f l).filter (fun a => key a ≠ j) =
      upsert key k new f (l.filter fun a => key a ≠ j) := by
  induction l with
  | nil => simp [upsert, hnew, hj.symm]
  | cons b l ih =>
    obtain ⟨hb, hl⟩ := List.pairwise_cons.mp h
    by_cases hlt : k < key b
    · -- the new entry comes first, with or without `b`
      have hfirst : ∀ l' : List α, (∀ a ∈ l', k < key a) →
          upsert key k new f l' = new :: l' := by
        intro l' hl'
        cases l' with
        | nil => rfl
        | cons a l' => simp [upsert, hl' a List.mem_cons_self]
      have hall : ∀ a ∈ b :: l, k < key a := by
        intro a ha
        rcases List.mem_cons.mp ha with rfl | ha
        · exact hlt
        · exact hlt.trans (hb a ha)
      rw [hfirst _ hall, hfirst _ fun a ha => hall a (List.mem_filter.mp ha).1,
        List.filter_cons_of_pos (by simp [hnew, hj.symm])]
    · by_cases hkey : key b = k
      · have hbj : key b ≠ j := fun heq => hj (heq.symm.trans hkey)
        rw [List.filter_cons_of_pos (by simp [hbj]), upsert, if_neg hlt, if_pos hkey, upsert,
          if_neg hlt, if_pos hkey, List.filter_cons_of_pos (by simp [hf, hbj])]
      · rw [upsert, if_neg hlt, if_neg hkey]
        by_cases hbj : key b = j
        · rw [List.filter_cons_of_neg (by simp [hbj]), List.filter_cons_of_neg (by simp [hbj]),
            ih hl]
        · rw [List.filter_cons_of_pos (by simp [hbj]), List.filter_cons_of_pos (by simp [hbj]),
            ih hl, upsert, if_neg hlt, if_neg hkey]

end upsert

/-- Forgetting from the front is forgetting by key. -/
theorem Increasing.dropWhile_le {l : List α} (h : Increasing key l) (k : κ) :
    (l.dropWhile fun a => key a ≤ k) = l.filter fun a => k < key a := by
  induction l with
  | nil => rfl
  | cons b l ih =>
    obtain ⟨hb, hl⟩ := List.pairwise_cons.mp h
    by_cases hle : key b ≤ k
    · rw [List.dropWhile_cons_of_pos (by simpa using hle), ih hl,
        List.filter_cons_of_neg (by simpa using hle)]
    · rw [List.dropWhile_cons_of_neg (by simpa using hle)]
      refine (List.filter_eq_self.mpr fun a ha => ?_).symm
      rcases List.mem_cons.mp ha with rfl | ha
      · simpa using hle
      · simpa using (not_le.mp hle).trans (hb a ha)

/-- The entry with a key, where nothing before it is left. -/
theorem Increasing.find?_eq_head? {l : List α} (h : Increasing key l) {k : κ}
    (hle : ∀ a ∈ l, k ≤ key a) :
    (l.find? fun a => key a = k) = l.head?.filter fun a => key a ≤ k := by
  cases l with
  | nil => rfl
  | cons b l =>
    obtain ⟨hb, -⟩ := List.pairwise_cons.mp h
    have hkb := hle b List.mem_cons_self
    by_cases hkey : key b = k
    · simp [hkey, Option.filter]
    · have hlt : k < key b := lt_of_le_of_ne hkb (Ne.symm hkey)
      have hnone : (l.find? fun a => key a = k) = none := by
        refine List.find?_eq_none.mpr fun a ha => ?_
        simpa using (hlt.trans (hb a ha)).ne'
      simp [hkey, hnone, Option.filter, hlt]

/-- What is found for one key does not depend on another. -/
theorem find?_filter_of_ne {j k : κ} (hj : j ≠ k) (l : List α) :
    ((l.filter fun a => key a ≠ j).find? fun a => key a = k) = l.find? fun a => key a = k := by
  induction l with
  | nil => rfl
  | cons b l ih =>
    by_cases hbj : key b = j
    · have hbk : key b ≠ k := fun heq => hj (hbj.symm.trans heq)
      rw [List.filter_cons_of_neg (by simp [hbj]), ih, List.find?_cons_of_neg (by simp [hbk])]
    · rw [List.filter_cons_of_pos (by simp [hbj])]
      by_cases hbk : key b = k
      · rw [List.find?_cons_of_pos (by simp [hbk]), List.find?_cons_of_pos (by simp [hbk])]
      · rw [List.find?_cons_of_neg (by simp [hbk]), List.find?_cons_of_neg (by simp [hbk]), ih]

end Keyed
