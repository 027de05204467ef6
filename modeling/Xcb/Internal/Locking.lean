import Mathlib.Data.Fintype.Defs
import Mathlib.Logic.Function.Basic
import Mathlib.Order.WellFounded
import Xcb.Internal.Transition

/-!
# Locks that are taken in order

What programs do to mutexes, with everything else left to the environment: which way a branch goes
and how often a loop is repeated. Procedures may call each other, and any number of threads run
them. A lock that a thread holds cannot be taken, not even by that thread.

The discipline is the usual one. Locks are ordered, and a procedure has a *floor*: all locks that it
takes, itself or through calls, are at least that. It is checked for one procedure at a time, from
no lock held, and it holds of whole runs by a frame rule: what the callers hold is below the floor.

## Main definitions

* `Locking.Code` — what a piece of program does to locks
* `Locking.step` — one thread goes on
* `Locking.Code.after` — the check, which computes what is held behind a piece of program
* `Locking.Orderly` — no thread is stuck, and each unlocks what it has locked
* `Locking.Thread.Stuck` — it waits for a lock that it holds itself

## Main results

* `Locking.Code.after_append` — the frame rule
* `Locking.orderly_of_reach` — programs that pass the check
* `Locking.exists_stuck` — a procedure that comes to wait for a lock it holds
-/

namespace Locking

universe u v w

/-- What a piece of program does to locks. -/
inductive Code (Λ : Type u) (Φ : Type v) : Type max u v
  | skip
  | lock (l : Λ)
  | unlock (l : Λ)
  | call (f : Φ)
  | seq (a b : Code Λ Φ)
  /-- A branch; which way it goes is not known. -/
  | either (a b : Code Λ Φ)
  /-- Any number of repetitions. -/
  | loop (a : Code Λ Φ)

namespace Code

variable {Λ : Type u} {Φ : Type v}

/-- One after the other. -/
def block : List (Code Λ Φ) → Code Λ Φ
  | [] => .skip
  | c :: cs => .seq c (block cs)

/-- An `if` without an `else`. -/
def opt (c : Code Λ Φ) : Code Λ Φ := .either c .skip

/-- Give the lock up and take it again, any number of times. -/
def waits (l : Λ) : Code Λ Φ := .loop (.seq (.unlock l) (.lock l))

end Code

/-- A thread: the locks it holds, and what it still has to do. -/
structure Thread (Λ : Type u) (Φ : Type v) where
  held : List Λ
  code : List (Code Λ Φ)

/-- The thread waits for a lock that it holds. -/
def Thread.Stuck {Λ : Type u} {Φ : Type v} (l : Λ) (th : Thread Λ Φ) : Prop :=
  l ∈ th.held ∧ ∃ k, th.code = .lock l :: k

/-- A thread calls a procedure, or goes on; `choice` decides branches and loops. -/
inductive Action (Φ : Type v) (τ : Type w)
  | start (t : τ) (f : Φ)
  | run (t : τ) (choice : Bool)

/-- Only this thread goes on, and it calls nothing new. -/
def Action.IsRun {Φ : Type v} {τ : Type w} (t : τ) (a : Action Φ τ) : Prop :=
  ∃ choice, a = .run t choice

section semantics

variable {Λ : Type u} {Φ : Type v} {τ : Type w} [DecidableEq Λ]

/-- One step of a thread. `free` says whether nobody holds a lock. -/
def advance (body : Φ → Code Λ Φ) (free : Λ → Bool) (choice : Bool) (th : Thread Λ Φ) :
    Option (Thread Λ Φ) :=
  match th.code with
  | [] => none
  | .skip :: k => some ⟨th.held, k⟩
  | .lock l :: k => if free l then some ⟨l :: th.held, k⟩ else none
  | .unlock l :: k => some ⟨th.held.erase l, k⟩
  | .call f :: k => some ⟨th.held, body f :: k⟩
  | .seq a b :: k => some ⟨th.held, a :: b :: k⟩
  | .either a b :: k => some ⟨th.held, (if choice then a else b) :: k⟩
  | .loop a :: k => some ⟨th.held, if choice then a :: .loop a :: k else k⟩

/-- No thread holds the lock. -/
def free [Fintype τ] (s : τ → Thread Λ Φ) (l : Λ) : Bool := decide (∀ t, l ∉ (s t).held)

variable [DecidableEq τ] [Fintype τ]

/-- A step of the system. A thread can call a procedure when it has nothing to do. -/
def step (body : Φ → Code Λ Φ) (s : τ → Thread Λ Φ) : Action Φ τ → Option (τ → Thread Λ Φ)
  | .start t f =>
    match (s t).code with
    | [] => some (Function.update s t ⟨(s t).held, [.call f]⟩)
    | _ => none
  | .run t choice => (advance body (free s) choice (s t)).map (Function.update s t)

/-- Nobody does anything. -/
def init : τ → Thread Λ Φ := fun _ => ⟨[], []⟩

omit [DecidableEq τ] in
/-- The locks are in order: as long as a thread has something to do, some thread can go on, no
thread waits for a lock it holds, and a thread that unlocks holds the lock. -/
structure Orderly (body : Φ → Code Λ Φ) (s : τ → Thread Λ Φ) : Prop where
  progress : (∃ t, (s t).code ≠ []) → ∃ t choice, (advance body (free s) choice (s t)).isSome = true
  lock : ∀ t l k, (s t).code = .lock l :: k → l ∉ (s t).held
  unlock : ∀ t l k, (s t).code = .unlock l :: k → l ∈ (s t).held
  idle : ∀ t, (s t).code = [] → (s t).held = []

end semantics

/-! ### The check -/

section check

variable {Λ : Type u} {Φ : Type v} [LinearOrder Λ] {floor : Φ → Λ} {allowed : Λ → Prop}
  [DecidablePred allowed] {held held' low : List Λ}

/-- What a thread that holds `held` holds behind a piece of program, if each lock that it takes is
allowed and above all that it holds. -/
def Code.after (floor : Φ → Λ) (allowed : Λ → Prop) [DecidablePred allowed] :
    List Λ → Code Λ Φ → Option (List Λ)
  | held, .skip => some held
  | held, .lock l => if allowed l ∧ ∀ m ∈ held, m < l then some (l :: held) else none
  | held, .unlock l => if l ∈ held then some (held.erase l) else none
  | held, .call f => if allowed (floor f) ∧ ∀ m ∈ held, m < floor f then some held else none
  | held, .seq a b => (a.after floor allowed held).bind fun mid => b.after floor allowed mid
  | held, .either a b =>
    if a.after floor allowed held = b.after floor allowed held then a.after floor allowed held
    else none
  | held, .loop a => if a.after floor allowed held = some held then some held else none

/-- The procedure keeps to its floor. -/
def Ranked (floor : Φ → Λ) (body : Φ → Code Λ Φ) (f : Φ) : Prop :=
  (body f).after floor (floor f ≤ ·) [] = some []

/-- **The frame rule.** What is held by the callers does not matter, when it is below everything
that is allowed. -/
theorem Code.after_append {c : Code Λ Φ} (h : c.after floor allowed held = some held')
    (hlow : ∀ l, allowed l → ∀ m ∈ low, m < l) :
    c.after floor (fun _ => True) (held ++ low) = some (held' ++ low) := by
  have habove : ∀ {held l}, (allowed l ∧ ∀ m ∈ held, m < l) →
      True ∧ ∀ m ∈ held ++ low, m < l := by
    rintro held l ⟨hl, hheld⟩
    refine ⟨trivial, fun m hm => ?_⟩
    rcases List.mem_append.mp hm with hm | hm
    · exact hheld m hm
    · exact hlow l hl m hm
  induction c generalizing held held' with
  | skip =>
    cases h
    rfl
  | lock l =>
    simp only [after] at h ⊢
    split at h
    · next hl =>
      cases h
      rw [if_pos (habove hl), List.cons_append]
    · cases h
  | unlock l =>
    simp only [after] at h ⊢
    split at h
    · next hl =>
      cases h
      rw [if_pos (List.mem_append_left low hl), List.erase_append_left low hl]
    · cases h
  | call f =>
    simp only [after] at h ⊢
    split at h
    · next hf =>
      cases h
      rw [if_pos (habove hf)]
    · cases h
  | seq a b iha ihb =>
    simp only [after] at h ⊢
    obtain ⟨mid, ha, hb⟩ := Option.bind_eq_some_iff.mp h
    rw [iha ha, Option.bind_some, ihb hb]
  | either a b iha ihb =>
    simp only [after] at h ⊢
    split at h
    · next heq => rw [iha h, ihb (heq ▸ h), if_pos rfl]
    · cases h
  | loop a ih =>
    simp only [after] at h ⊢
    split at h
    · next ha =>
      cases h
      rw [ih ha, if_pos rfl]
    · cases h

/-! ### What holds in every run -/

/-- What a thread holds when it has done everything. -/
def afterAll (floor : Φ → Λ) (held : List Λ) (code : List (Code Λ Φ)) : Option (List Λ) :=
  code.foldlM (fun held c => c.after floor (fun _ => True) held) held

/-- A thread keeps to the order, and will have given back all locks. -/
def Thread.Safe (floor : Φ → Λ) (th : Thread Λ Φ) : Prop := afterAll floor th.held th.code = some []

theorem afterAll_cons (c : Code Λ Φ) (k : List (Code Λ Φ)) :
    afterAll floor held (c :: k) =
      (c.after floor (fun _ => True) held).bind fun mid => afterAll floor mid k := by
  rw [afterAll, List.foldlM_cons]
  rfl

theorem afterAll_cons_eq_some {c : Code Λ Φ} {k : List (Code Λ Φ)} {rest : List Λ} :
    afterAll floor held (c :: k) = some rest ↔
      ∃ mid, c.after floor (fun _ => True) held = some mid ∧ afterAll floor mid k = some rest := by
  rw [afterAll_cons, Option.bind_eq_some_iff]

/-- **One step of one thread.** -/
theorem Thread.Safe.advance {body : Φ → Code Λ Φ} (hbody : ∀ f, Ranked floor body f)
    {free : Λ → Bool} {choice : Bool} {th th' : Thread Λ Φ} (h : th.Safe floor)
    (hstep : Locking.advance body free choice th = some th') : th'.Safe floor := by
  obtain ⟨held, code⟩ := th
  cases code with
  | nil => cases hstep
  | cons c k =>
    obtain ⟨mid, hc, hk⟩ := afterAll_cons_eq_some.mp h
    cases c with
    | skip =>
      cases hstep
      cases hc
      exact hk
    | lock l =>
      simp only [Locking.advance] at hstep
      simp only [Code.after] at hc
      split at hstep
      · cases hstep
        split at hc
        · cases hc
          exact hk
        · cases hc
      · cases hstep
    | unlock l =>
      cases hstep
      simp only [Code.after] at hc
      split at hc
      · cases hc
        exact hk
      · cases hc
    | call f =>
      cases hstep
      simp only [Code.after] at hc
      split at hc
      · next hf =>
        cases hc
        -- what the thread holds is below the floor of the procedure
        have hbelow : ∀ l, floor f ≤ l → ∀ m ∈ held, m < l :=
          fun l hl m hm => (hf.2 m hm).trans_le hl
        have hframe := Code.after_append (hbody f) hbelow
        exact afterAll_cons_eq_some.mpr ⟨held, hframe, hk⟩
      · cases hc
    | seq a b =>
      cases hstep
      simp only [Code.after] at hc
      obtain ⟨mid', ha, hb⟩ := Option.bind_eq_some_iff.mp hc
      exact afterAll_cons_eq_some.mpr ⟨mid', ha, afterAll_cons_eq_some.mpr ⟨mid, hb, hk⟩⟩
    | either a b =>
      cases hstep
      simp only [Code.after] at hc
      split at hc
      · next heq =>
        refine afterAll_cons_eq_some.mpr ⟨mid, ?_, hk⟩
        cases choice with
        | true => exact hc
        | false => exact heq ▸ hc
      · cases hc
    | loop a =>
      cases hstep
      have hloop := hc
      simp only [Code.after] at hc
      split at hc
      · next ha =>
        cases hc
        cases choice with
        | true =>
          exact afterAll_cons_eq_some.mpr ⟨held, ha, afterAll_cons_eq_some.mpr ⟨held, hloop, hk⟩⟩
        | false => exact hk
      · cases hc

variable {τ : Type w} {body : Φ → Code Λ Φ} {th : Thread Λ Φ} {l : Λ} {k : List (Code Λ Φ)}

/-- A thread that wants a lock holds only smaller ones. -/
theorem Thread.Safe.lt_of_lock (h : th.Safe floor) (hcode : th.code = .lock l :: k) :
    ∀ m ∈ th.held, m < l := by
  rw [Safe, hcode] at h
  obtain ⟨mid, hl, -⟩ := afterAll_cons_eq_some.mp h
  simp only [Code.after] at hl
  split at hl
  · next hfree => exact hfree.2
  · cases hl

theorem Thread.Safe.mem_of_unlock (h : th.Safe floor) (hcode : th.code = .unlock l :: k) :
    l ∈ th.held := by
  rw [Safe, hcode] at h
  obtain ⟨mid, hl, -⟩ := afterAll_cons_eq_some.mp h
  simp only [Code.after] at hl
  split at hl
  · next hheld => exact hheld
  · cases hl

theorem Thread.Safe.held_eq_nil (h : th.Safe floor) (hcode : th.code = []) : th.held = [] := by
  rw [Safe, hcode] at h
  exact Option.some_inj.mp h

/-- A thread that cannot go on has nothing to do, or waits for a lock. -/
theorem exists_lock_of_advance {free : Λ → Bool} {choice : Bool} (hcode : th.code ≠ [])
    (h : advance body free choice th = none) :
    ∃ l k, th.code = .lock l :: k ∧ free l = false := by
  obtain ⟨held, code⟩ := th
  cases code with
  | nil => exact absurd rfl hcode
  | cons c k =>
    cases c with
    | lock l =>
      simp only [Locking.advance] at h
      split at h
      · cases h
      · next hfree => exact ⟨l, k, rfl, Bool.eq_false_iff.mpr hfree⟩
    | _ => cases h

variable [Fintype τ] {s : τ → Thread Λ Φ}

/-- **No deadlock.** If all threads that have something to do waited for locks, each of these would
be held by a thread that waits for a larger one. -/
theorem progress_of_safe [WellFoundedGT Λ] (hsafe : ∀ t, (s t).Safe floor)
    (hbusy : ∃ t, (s t).code ≠ []) :
    ∃ t choice, (advance body (free s) choice (s t)).isSome = true := by
  by_contra hstuck
  have hwaits : ∀ t, (s t).code ≠ [] → ∃ l k, (s t).code = .lock l :: k ∧ free s l = false := by
    intro t ht
    have hnone : advance body (free s) true (s t) = none :=
      Option.not_isSome_iff_eq_none.mp fun hsome => hstuck ⟨t, true, hsome⟩
    exact exists_lock_of_advance ht hnone
  -- there is no largest lock that a thread waits for
  have hnone : ∀ l t k, (s t).code ≠ .lock l :: k := by
    intro l
    induction l using WellFoundedGT.induction with
    | _ l ih =>
      intro t k hcode
      obtain ⟨l', k', hcode', hfree⟩ := hwaits t (by rw [hcode]; exact List.cons_ne_nil _ _)
      obtain ⟨rfl, rfl⟩ : l = l' ∧ k = k' := by
        rw [hcode] at hcode'
        simpa using hcode'
      obtain ⟨u, hu⟩ := not_forall.mp (of_decide_eq_false hfree)
      have hheld : l ∈ (s u).held := not_not.mp hu
      have hwork : (s u).code ≠ [] := fun hnil => by
        rw [(hsafe u).held_eq_nil hnil] at hheld
        cases hheld
      obtain ⟨l', k', hcode', -⟩ := hwaits u hwork
      exact ih l' ((hsafe u).lt_of_lock hcode' l hheld) u k' hcode'
  obtain ⟨t, ht⟩ := hbusy
  obtain ⟨l, k, hcode, -⟩ := hwaits t ht
  exact hnone l t k hcode

variable [DecidableEq τ] {s' : τ → Thread Λ Φ} {a : Action Φ τ}

omit [Fintype τ] [DecidableEq τ] in
theorem safe_init (t : τ) : (init (Λ := Λ) (Φ := Φ) t).Safe floor := rfl

/-- A call from outside holds nothing, so it is above no floor. -/
theorem safe_start (f : Φ) : (⟨[], [.call f]⟩ : Thread Λ Φ).Safe floor := by
  refine afterAll_cons_eq_some.mpr ⟨[], ?_, rfl⟩
  simp [Code.after]

theorem safe_step (hbody : ∀ f, Ranked floor body f) (hsafe : ∀ t, (s t).Safe floor)
    (hstep : step body s a = some s') : ∀ t, (s' t).Safe floor := by
  have hupdate : ∀ {t th}, th.Safe floor → ∀ u, (Function.update s t th u).Safe floor :=
    fun {t th} hth => (Function.forall_update_iff s (fun _ th => th.Safe floor)).mpr
      ⟨hth, fun u _ => hsafe u⟩
  cases a with
  | start t f =>
    simp only [step] at hstep
    split at hstep
    · next hcode =>
      cases hstep
      rw [(hsafe t).held_eq_nil hcode]
      exact hupdate (safe_start f)
    · cases hstep
  | run t choice =>
    obtain ⟨th, hth, rfl⟩ := Option.map_eq_some_iff.mp hstep
    exact hupdate ((hsafe t).advance hbody hth)

/-- **Programs that pass the check** keep the locks in order in every run. -/
theorem orderly_of_reach [WellFoundedGT Λ] {ok : (τ → Thread Λ Φ) → Action Φ τ → Prop}
    (hbody : ∀ f, Ranked floor body f) (h : Transition.Reach (step body) ok init s) :
    Orderly body s := by
  have hsafe : ∀ t, (s t).Safe floor :=
    h.invariant (P := fun s => ∀ t, (s t).Safe floor)
      (fun _ _ _ hs _ hstep => safe_step hbody hs hstep) safe_init
  exact ⟨progress_of_safe hsafe,
    fun t l k hcode hl => lt_irrefl l ((hsafe t).lt_of_lock hcode l hl),
    fun t l k hcode => (hsafe t).mem_of_unlock hcode, fun t => (hsafe t).held_eq_nil⟩

end check

/-! ### Runs of one thread -/

section solo

variable {Λ : Type u} {Φ : Type v} {τ : Type w} [DecidableEq Λ] [DecidableEq τ] [Fintype τ]
  {body : Φ → Code Λ Φ} {th : Thread Λ Φ}

/-- The state in which only thread `t` does anything. -/
def only (t : τ) (th : Thread Λ Φ) : τ → Thread Λ Φ := Function.update init t th

/-- A thread that is alone can come to where it waits for this lock, and holds it. -/
inductive Jams (body : Φ → Code Λ Φ) (l : Λ) : Thread Λ Φ → Prop
  | here {th : Thread Λ Φ} (hstuck : th.Stuck l) : Jams body l th
  | head {th next : Thread Λ Φ} (choice : Bool)
    (hstep : advance body (fun m => decide (m ∉ th.held)) choice th = some next)
    (hrest : Jams body l next) : Jams body l th

namespace Jams

variable {l m : Λ} {held : List Λ} {k : List (Code Λ Φ)} {a b : Code Λ Φ} {cs : List (Code Λ Φ)}

theorem lock (hm : m ∉ held) (h : Jams body l ⟨m :: held, k⟩) :
    Jams body l ⟨held, .lock m :: k⟩ :=
  .head false (if_pos (decide_eq_true hm)) h

theorem unlock (h : Jams body l ⟨held, k⟩) : Jams body l ⟨m :: held, .unlock m :: k⟩ := by
  refine .head false ?_ h
  simp [advance]

theorem call {f : Φ} (h : Jams body l ⟨held, body f :: k⟩) : Jams body l ⟨held, .call f :: k⟩ :=
  .head false rfl h

theorem seq (h : Jams body l ⟨held, a :: b :: k⟩) : Jams body l ⟨held, .seq a b :: k⟩ :=
  .head false rfl h

theorem opt (h : Jams body l ⟨held, a :: k⟩) : Jams body l ⟨held, .opt a :: k⟩ :=
  .head true rfl h

theorem block (h : Jams body l ⟨held, a :: .block cs :: k⟩) :
    Jams body l ⟨held, .block (a :: cs) :: k⟩ :=
  .seq h

end Jams

theorem free_only (t : τ) (th : Thread Λ Φ) :
    free (only t th) = fun l => decide (l ∉ th.held) := by
  funext l
  refine decide_eq_decide.mpr ⟨fun h => ?_, fun h u => ?_⟩
  · have ht := h t
    rwa [only, Function.update_self] at ht
  · by_cases hu : u = t
    · rw [hu, only, Function.update_self]
      exact h
    · rw [only, Function.update_of_ne hu]
      exact List.not_mem_nil

theorem step_only (t : τ) (choice : Bool) (th : Thread Λ Φ) :
    step body (only t th) (.run t choice) =
      (advance body (fun l => decide (l ∉ th.held)) choice th).map (only t) := by
  rw [step, free_only, only, Function.update_self]
  congr 1
  funext th'
  exact Function.update_idem _ _ _

/-- **A thread that waits for itself** is reached by a run of this thread. -/
theorem Jams.reach {l : Λ} (h : Jams body l th) (t : τ) :
    ∃ s, Transition.Reach (step body) (fun _ a => a.IsRun t) (only t th) s ∧ (s t).Stuck l := by
  induction h with
  | @here th hstuck =>
    refine ⟨_, .refl _, ?_⟩
    rw [only, Function.update_self]
    exact hstuck
  | @head th next choice hnext hrest ih =>
    obtain ⟨s, hs, hstuck⟩ := ih
    have hstep : step body (only t th) (.run t choice) = some (only t next) := by
      rw [step_only, hnext]
      rfl
    exact ⟨s, (Transition.Reach.single ⟨choice, rfl⟩ hstep).trans hs, hstuck⟩

/-- **A procedure that jams** when it is called. -/
theorem exists_stuck {l : Λ} {f : Φ} (h : Jams body l ⟨[], [.call f]⟩) (t : τ) :
    ∃ s u : τ → Thread Λ Φ, step body init (.start t f) = some s ∧
      Transition.Reach (step body) (fun _ a => a.IsRun t) s u ∧ (u t).Stuck l := by
  obtain ⟨u, hu, hstuck⟩ := h.reach t
  exact ⟨only t ⟨[], [.call f]⟩, u, rfl, hu, hstuck⟩

omit [DecidableEq τ] in
/-- A thread that is stuck breaks the order. -/
theorem Thread.Stuck.not_orderly {l : Λ} {s : τ → Thread Λ Φ} {t : τ} (h : (s t).Stuck l) :
    ¬ Orderly body s := by
  obtain ⟨hheld, k, hcode⟩ := h
  exact fun horderly => horderly.lock t l k hcode hheld

end solo

end Locking
