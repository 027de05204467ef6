import Mathlib.Data.List.Induction
import Mathlib.Data.Nat.Notation
import Mathlib.Logic.Basic

/-!
# Runs of a transition system

A system is a partial step function `σ → α → Option σ`: the action `α` carries every choice the
environment makes, and `none` says that the action is not enabled. A run is *restricted* by a
predicate on the state before a step and the step's action, which is how an assumption about the
environment, or the condition under which a result holds, enters a statement.

## Main results

* `Transition.Reach.invariant` — what every allowed step preserves holds in every state reached
* `Transition.Reach.strengthen` — and so it can be assumed at each step
* `Transition.Reach.iterate` — a family of runs, one after the other
* `Transition.Reach.simulate` — steps that another system can match make runs that it can match
* `Transition.Trace.invariant` — the same for what relates a state to the actions that led to it
* `Transition.Trace.unique` — the actions of a run determine its end
-/

namespace Transition

variable {σ α : Type*} {step : σ → α → Option σ} {ok ok' : σ → α → Prop}

/-- `t` is reached from `s` by steps that all satisfy `ok`. -/
inductive Reach (step : σ → α → Option σ) (ok : σ → α → Prop) : σ → σ → Prop
  /-- No step. -/
  | refl (s : σ) : Reach step ok s s
  /-- One more step at the end. -/
  | tail {s t u : σ} {a : α} : Reach step ok s t → ok t a → step t a = some u → Reach step ok s u

theorem Reach.single {s t : σ} {a : α} (hok : ok s a) (h : step s a = some t) :
    Reach step ok s t :=
  .tail (.refl s) hok h

theorem Reach.trans {s t u : σ} (h₁ : Reach step ok s t) (h₂ : Reach step ok t u) :
    Reach step ok s u := by
  induction h₂ with
  | refl => exact h₁
  | tail _ hok hstep ih => exact .tail ih hok hstep

/-- A weaker restriction allows more runs. -/
theorem Reach.mono (hle : ∀ s a, ok s a → ok' s a) {s t : σ} (h : Reach step ok s t) :
    Reach step ok' s t := by
  induction h with
  | refl => exact .refl _
  | tail _ hok hstep ih => exact .tail ih (hle _ _ hok) hstep

/-- A run given by its actions. -/
theorem Reach.of_foldlM {s t : σ} {as : List α} (hok : ∀ s, ∀ a ∈ as, ok s a)
    (h : as.foldlM step s = some t) : Reach step ok s t := by
  induction as generalizing s with
  | nil =>
    cases h
    exact .refl _
  | cons a as ih =>
    rw [List.foldlM_cons] at h
    obtain ⟨u, hstep, hrest⟩ := Option.bind_eq_some_iff.mp h
    exact (Reach.single (hok s a List.mem_cons_self) hstep).trans
      (ih (fun s b hb => hok s b (List.mem_cons_of_mem a hb)) hrest)

/-- A step that is allowed. -/
def checked (step : σ → α → Option σ) (ok : σ → α → Prop) [∀ s a, Decidable (ok s a)] (s : σ)
    (a : α) : Option σ :=
  if ok s a then step s a else none

theorem of_checked_eq_some [∀ s a, Decidable (ok s a)] {s t : σ} {a : α}
    (h : checked step ok s a = some t) : ok s a ∧ step s a = some t := by
  unfold checked at h
  split at h
  · next hok => exact ⟨hok, h⟩
  · cases h

/-- A run that is checked is a run. -/
theorem foldlM_of_checked [∀ s a, Decidable (ok s a)] {s t : σ} {as : List α}
    (h : as.foldlM (checked step ok) s = some t) : as.foldlM step s = some t := by
  induction as generalizing s with
  | nil => exact h
  | cons a as ih =>
    rw [List.foldlM_cons] at h ⊢
    obtain ⟨u, hstep, hrest⟩ := Option.bind_eq_some_iff.mp h
    exact Option.bind_eq_some_iff.mpr ⟨u, (of_checked_eq_some hstep).2, ih hrest⟩

/-- **Invariants.** What every allowed step preserves holds at the end of a run. -/
theorem Reach.invariant {P : σ → Prop}
    (hstep : ∀ s a t, P s → ok s a → step s a = some t → P t) {s t : σ}
    (h : Reach step ok s t) (h0 : P s) : P t := by
  induction h with
  | refl => exact h0
  | tail _ hok hs ih => exact hstep _ _ _ ih hok hs

/-- An invariant is part of the restriction of a run. -/
theorem Reach.strengthen {P : σ → Prop} (hstep : ∀ s a t, P s → ok s a → step s a = some t → P t)
    {s t : σ} (h : Reach step ok s t) (h0 : P s) : Reach step (fun s a => ok s a ∧ P s) s t := by
  have hboth : Reach step (fun s a => ok s a ∧ P s) s t ∧ P t := by
    induction h with
    | refl => exact ⟨.refl _, h0⟩
    | tail _ hok hs ih => exact ⟨.tail ih.1 ⟨hok, ih.2⟩ hs, hstep _ _ _ ih.2 hok hs⟩
  exact hboth.1

/-- A family of runs composed: `P n` is the shape of the state after `n` of them. -/
theorem Reach.iterate {P : ℕ → σ → Prop} {N : ℕ}
    (hnext : ∀ n < N, ∀ s, P n s → ∃ t, Reach step ok s t ∧ P (n + 1) t) {s : σ} (h0 : P 0 s) :
    ∃ t, Reach step ok s t ∧ P N t := by
  induction N with
  | zero => exact ⟨s, .refl s, h0⟩
  | succ N ih =>
    obtain ⟨t, hst, ht⟩ := ih fun n hn => hnext n (Nat.lt_succ_of_lt hn)
    obtain ⟨u, htu, hu⟩ := hnext N (Nat.lt_succ_self N) t ht
    exact ⟨u, hst.trans htu, hu⟩

/-- **Simulation.** When each allowed step is matched by a run of another system, from every state
that is related to its own, then so is each run. -/
theorem Reach.simulate {σ' α' : Type*} {step' : σ' → α' → Option σ'} {other : σ' → α' → Prop}
    {R : σ → σ' → Prop}
    (hstep : ∀ s a t s', R s s' → ok s a → step s a = some t →
      ∃ t', Reach step' other s' t' ∧ R t t')
    {s t : σ} {s' : σ'} (h : Reach step ok s t) (h0 : R s s') :
    ∃ t', Reach step' other s' t' ∧ R t t' := by
  induction h with
  | refl => exact ⟨s', .refl s', h0⟩
  | tail _ hok hs ih =>
    obtain ⟨u', hu', hrel⟩ := ih
    obtain ⟨t', ht', hrel'⟩ := hstep _ _ _ _ hrel hok hs
    exact ⟨t', hu'.trans ht', hrel'⟩

/-! ### Runs with their actions -/

/-- `t` is reached from `s` by exactly these actions, oldest first. -/
inductive Trace (step : σ → α → Option σ) (ok : σ → α → Prop) (s : σ) : List α → σ → Prop
  /-- No step. -/
  | nil : Trace step ok s [] s
  /-- One more step at the end. -/
  | snoc {as : List α} {t u : σ} {a : α} :
      Trace step ok s as t → ok t a → step t a = some u → Trace step ok s (as ++ [a]) u

theorem Trace.reach {s t : σ} {as : List α} (h : Trace step ok s as t) : Reach step ok s t := by
  induction h with
  | nil => exact .refl _
  | snoc _ hok hstep ih => exact .tail ih hok hstep

/-- A weaker restriction allows more runs. -/
theorem Trace.mono (hle : ∀ s a, ok s a → ok' s a) {s t : σ} {as : List α}
    (h : Trace step ok s as t) : Trace step ok' s as t := by
  induction h with
  | nil => exact .nil
  | snoc _ hok hstep ih => exact .snoc ih (hle _ _ hok) hstep

theorem Reach.trace {s t : σ} (h : Reach step ok s t) : ∃ as, Trace step ok s as t := by
  induction h with
  | refl => exact ⟨[], .nil⟩
  | tail _ hok hstep ih =>
    obtain ⟨as, has⟩ := ih
    exact ⟨_, .snoc has hok hstep⟩

/-- A run that is checked, with its actions. -/
theorem Trace.of_checked [∀ s a, Decidable (ok s a)] {s t : σ} {as : List α}
    (h : as.foldlM (checked step ok) s = some t) : Trace step ok s as t := by
  induction as using List.reverseRec generalizing t with
  | nil =>
    cases h
    exact .nil
  | append_singleton as a ih =>
    rw [List.foldlM_append] at h
    obtain ⟨u, hu, hlast⟩ := Option.bind_eq_some_iff.mp h
    rw [List.foldlM_cons] at hlast
    obtain ⟨v, hv, hend⟩ := Option.bind_eq_some_iff.mp hlast
    cases hend
    obtain ⟨hok, hstep⟩ := of_checked_eq_some hv
    exact .snoc (ih hu) hok hstep

/-- A run given by its actions, each of which is checked to be allowed. -/
theorem Reach.of_checked [∀ s a, Decidable (ok s a)] {s t : σ} {as : List α}
    (h : as.foldlM (checked step ok) s = some t) : Reach step ok s t :=
  (Trace.of_checked h).reach

/-- The actions determine where a run ends. -/
theorem Trace.unique {s t t' : σ} {as : List α} (h : Trace step ok s as t)
    (h' : Trace step ok' s as t') : t = t' := by
  induction h generalizing t' with
  | nil =>
    generalize hbs : ([] : List α) = bs at h'
    cases h' with
    | nil => rfl
    | snoc => exact absurd hbs (by simp)
  | @snoc as t u a _ _ hs ih =>
    generalize hbs : as ++ [a] = bs at h'
    cases h' with
    | nil => exact absurd hbs (by simp)
    | snoc hu _ hs' =>
      obtain ⟨rfl, ha⟩ := List.append_inj' hbs rfl
      cases ha
      rw [← ih hu, hs] at hs'
      exact Option.some_inj.mp hs'

/-- Invariants that relate the state to the actions so far. -/
theorem Trace.invariant {P : List α → σ → Prop} {s : σ}
    (hstep : ∀ as t a u, P as t → ok t a → step t a = some u → P (as ++ [a]) u)
    {t : σ} {as : List α} (h : Trace step ok s as t) (h0 : P [] s) : P as t := by
  induction h with
  | nil => exact h0
  | snoc _ hok hs ih => exact hstep _ _ _ _ ih hok hs

end Transition
