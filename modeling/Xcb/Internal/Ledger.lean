import Mathlib.Data.Finset.Basic
import Mathlib.Data.Finset.Option
import Mathlib.Data.Finset.Lattice.Lemmas

/-!
# Resources

Programs acquire, use and release things of several kinds: memory, descriptors. A *ledger* has the
names of those that are held. No name is given twice, so that a thing which is released twice, or
used afterwards, is noticed also where the system gives the same address out again.

What a program does to a ledger is stated for the ledger it began with: `l.Gains l' names` means
that it holds `names` more than then, and that it has only used and released what it had acquired.

## Main definitions

* `Ledger` — what is held
* `Ledger.acquire`, `Ledger.use`, `Ledger.release` — the operations
* `Ledger.Gains` — what a program has acquired and not released

## Main results

* `Ledger.Gains.acquire`, `Ledger.Gains.use`, `Ledger.Gains.release` — one operation more
* `Ledger.Gains.trans` — one program after another
* `Ledger.sound_release_release` — what is released twice is noticed
-/

universe u

/-- What is held, by kind and number. -/
structure Ledger (κ : Type u) where
  /-- The number of the next resource. -/
  next : ℕ
  held : Finset (κ × ℕ)
  /-- What was used or released was held. -/
  sound : Bool
  bounded : ∀ name ∈ held, name.2 < next

namespace Ledger

variable {κ : Type u} [DecidableEq κ] {l l' l'' : Ledger κ} {kind : κ} {name : κ × ℕ}
  {names names' : Finset (κ × ℕ)}

omit [DecidableEq κ] in
theorem bounded_new : ∀ name ∈ (∅ : Finset (κ × ℕ)), name.2 < 0 :=
  fun name h => absurd h (Finset.notMem_empty name)

/-- Nothing. -/
def new : Ledger κ := ⟨0, ∅, true, bounded_new⟩

theorem bounded_acquire (l : Ledger κ) (kind : κ) :
    ∀ name ∈ insert (kind, l.next) l.held, name.2 < l.next + 1 := by
  intro name h
  rcases Finset.mem_insert.mp h with rfl | h
  · exact Nat.lt_succ_self _
  · exact (l.bounded name h).trans (Nat.lt_succ_self _)

/-- Get something new, and its name. -/
def acquire (l : Ledger κ) (kind : κ) : (κ × ℕ) × Ledger κ :=
  ((kind, l.next), ⟨l.next + 1, insert (kind, l.next) l.held, l.sound, l.bounded_acquire kind⟩)

/-- Do something with it. -/
def use (l : Ledger κ) (name : κ × ℕ) : Ledger κ :=
  { l with sound := l.sound && decide (name ∈ l.held) }

theorem bounded_release (l : Ledger κ) (name : κ × ℕ) : ∀ n ∈ l.held.erase name, n.2 < l.next :=
  fun n h => l.bounded n (Finset.mem_of_mem_erase h)

/-- Give it back. -/
def release (l : Ledger κ) (name : κ × ℕ) : Ledger κ :=
  ⟨l.next, l.held.erase name, l.sound && decide (name ∈ l.held), l.bounded_release name⟩

/-- Give it back, if there is anything. -/
def free (l : Ledger κ) (name : Option (κ × ℕ)) : Ledger κ := name.elim l l.release

/-! ### One operation -/

@[simp] theorem acquire_fst (l : Ledger κ) (kind : κ) : (l.acquire kind).1 = (kind, l.next) := rfl

@[simp] theorem held_acquire (l : Ledger κ) (kind : κ) :
    (l.acquire kind).2.held = insert (kind, l.next) l.held := rfl

@[simp] theorem next_acquire (l : Ledger κ) (kind : κ) : (l.acquire kind).2.next = l.next + 1 := rfl

@[simp] theorem sound_acquire (l : Ledger κ) (kind : κ) :
    (l.acquire kind).2.sound = l.sound := rfl

@[simp] theorem sound_use (l : Ledger κ) (name : κ × ℕ) :
    (l.use name).sound = (l.sound && decide (name ∈ l.held)) := rfl

@[simp] theorem held_release (l : Ledger κ) (name : κ × ℕ) :
    (l.release name).held = l.held.erase name := rfl

@[simp] theorem next_release (l : Ledger κ) (name : κ × ℕ) : (l.release name).next = l.next := rfl

@[simp] theorem sound_release (l : Ledger κ) (name : κ × ℕ) :
    (l.release name).sound = (l.sound && decide (name ∈ l.held)) := rfl

/-- What is released twice is noticed. -/
theorem sound_release_release (l : Ledger κ) (name : κ × ℕ) :
    ((l.release name).release name).sound = false := by simp

/-! ### Programs -/

/-- From `l` to `l'`, these were acquired and not released, and nothing else was touched. -/
structure Gains (l l' : Ledger κ) (names : Finset (κ × ℕ)) : Prop where
  held : l'.held = l.held ∪ names
  fresh : ∀ name ∈ names, l.next ≤ name.2
  sound : l'.sound = l.sound
  next : l.next ≤ l'.next

namespace Gains

theorem refl (l : Ledger κ) : l.Gains l ∅ where
  held := (Finset.union_empty _).symm
  fresh := fun name h => absurd h (Finset.notMem_empty name)
  sound := rfl
  next := le_rfl

theorem mem (h : l.Gains l' names) (hname : name ∈ names) : name ∈ l'.held := by
  rw [h.held]
  exact Finset.mem_union_right _ hname

/-- Nothing that was held before is among it. -/
theorem disjoint (h : l.Gains l' names) : Disjoint l.held names := by
  rw [Finset.disjoint_left]
  intro name hheld hname
  exact (h.fresh name hname).not_gt (l.bounded name hheld)

theorem lt_next (h : l.Gains l' names) (hname : name ∈ names) : name.2 < l'.next :=
  l'.bounded name (h.mem hname)

theorem next_notMem (h : l.Gains l' names) (kind : κ) : (kind, l'.next) ∉ names := fun hname =>
  (h.lt_next hname).false

theorem acquire (h : l.Gains l' names) (kind : κ) :
    l.Gains (l'.acquire kind).2 (insert (kind, l'.next) names) where
  held := by rw [held_acquire, h.held, Finset.union_insert]
  fresh := by
    intro name hname
    rcases Finset.mem_insert.mp hname with rfl | hname
    · exact h.next
    · exact h.fresh name hname
  sound := h.sound
  next := h.next.trans (Nat.le_succ _)

theorem use (h : l.Gains l' names) (hname : name ∈ names) : l.Gains (l'.use name) names where
  held := h.held
  fresh := h.fresh
  sound := by rw [sound_use, decide_eq_true (h.mem hname), Bool.and_true, h.sound]
  next := h.next

theorem release (h : l.Gains l' names) (hname : name ∈ names) :
    l.Gains (l'.release name) (names.erase name) where
  held := by
    have hbefore : name ∉ l.held := Finset.disjoint_right.mp h.disjoint hname
    rw [held_release, h.held, Finset.erase_union_distrib, Finset.erase_eq_of_notMem hbefore]
  fresh := fun n hn => h.fresh n (Finset.mem_of_mem_erase hn)
  sound := by rw [sound_release, decide_eq_true (h.mem hname), Bool.and_true, h.sound]
  next := h.next

theorem trans (h : l.Gains l' names) (h' : l'.Gains l'' names') : l.Gains l'' (names ∪ names') where
  held := by rw [h'.held, h.held, Finset.union_assoc]
  fresh := by
    intro name hname
    rcases Finset.mem_union.mp hname with hname | hname
    · exact h.fresh name hname
    · exact h.next.trans (h'.fresh name hname)
  sound := h'.sound.trans h.sound
  next := h.next.trans h'.next

/-- What the second program acquires, the first one has not. -/
theorem disjoint_trans (h : l.Gains l' names) (h' : l'.Gains l'' names') :
    Disjoint names names' := by
  rw [Finset.disjoint_left]
  intro name hname hname'
  exact (h'.fresh name hname').not_gt (h.lt_next hname)

theorem congr (h : l.Gains l' names) (heq : names = names') : l.Gains l' names' := heq ▸ h

/-- What is acquired and released again leaves no trace. -/
theorem release_next (h : l.Gains l' (insert name names)) (hname : name ∉ names) :
    l.Gains (l'.release name) names :=
  (h.release (Finset.mem_insert_self _ _)).congr (Finset.erase_insert hname)

theorem release_union (h : l.Gains l' (names' ∪ insert name names)) (hname' : name ∉ names')
    (hname : name ∉ names) : l.Gains (l'.release name) (names' ∪ names) := by
  refine (h.congr (Finset.union_insert _ _ _)).release_next ?_
  rw [Finset.mem_union, not_or]
  exact ⟨hname', hname⟩

theorem free {name : Option (κ × ℕ)} (h : l.Gains l' (name.toFinset ∪ names))
    (hname : Disjoint name.toFinset names) : l.Gains (l'.free name) names := by
  cases name with
  | none => exact h.congr (Finset.empty_union names)
  | some n =>
    rw [Option.toFinset_some, Finset.disjoint_singleton_left] at hname
    exact (h.congr (Finset.insert_eq n names).symm).release_next hname

end Gains

end Ledger
