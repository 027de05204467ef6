import Mathlib.Data.List.TakeWhile
import Mathlib.Data.BitVec

/-!
# Strings of the C library

A C string is the list of its characters without the closing `NUL`, a pointer into it the part of
the string that starts there. `strtoul` and `strrchr` are what the C standard says they are, in
the C locale; `w` is the width of `unsigned long`.

## Main definitions

* `CString.strrchr`, `CString.strtoul`
* `CString.Decimal` — a number written with decimal digits
* `CString.Numeral` — what `strtoul` takes for a number: blanks, a sign and digits

## Main results

* `CString.strrchr_eq_some_iff` — the last occurrence
* `CString.strtoul_append` — a numeral is read whole
* `CString.strtoul_cases` — nothing but a numeral at the start of the string is read
-/

namespace CString

/-! ### `strrchr` -/

/-- `strrchr`: what stands before and after the last `c`, or `none` for a null pointer. -/
def strrchr (c : Char) : List Char → Option (List Char × List Char)
  | [] => none
  | a :: s =>
    match strrchr c s with
    | some (before, after) => some (a :: before, after)
    | none => if a = c then some ([], s) else none

section strrchr

variable {c : Char} {s before after : List Char}

theorem strrchr_eq_none_iff : strrchr c s = none ↔ c ∉ s := by
  induction s with
  | nil => simp [strrchr]
  | cons a s ih =>
    rw [strrchr, List.mem_cons, not_or]
    cases hs : strrchr c s with
    | some found =>
      have hmem : ¬ c ∉ s := fun h => by simp [ih.mpr h] at hs
      exact ⟨nofun, fun h => absurd h.2 hmem⟩
    | none =>
      have hmem := ih.mp hs
      by_cases ha : a = c
      · simp [ha]
      · exact ⟨fun _ => ⟨Ne.symm ha, hmem⟩, fun _ => if_neg ha⟩

/-- The character found is the last one of its kind. -/
theorem strrchr_eq_some_iff :
    strrchr c s = some (before, after) ↔ s = before ++ c :: after ∧ c ∉ after := by
  induction s generalizing before after with
  | nil => simp [strrchr]
  | cons a s ih =>
    rw [strrchr]
    cases hs : strrchr c s with
    | some found =>
      obtain ⟨before', after'⟩ := found
      obtain ⟨rfl, hlast⟩ := ih.mp hs
      show some (a :: before', after') = _ ↔ _
      constructor
      · rintro ⟨⟩
        exact ⟨rfl, hlast⟩
      · rintro ⟨heq, hafter⟩
        cases before with
        | nil =>
          -- the part after the first character still has a `c` in it
          rw [List.nil_append] at heq
          obtain ⟨-, rfl⟩ := List.cons.inj heq
          exact absurd (List.mem_append_right before' List.mem_cons_self) hafter
        | cons b before =>
          obtain ⟨rfl, htail⟩ := List.cons.inj heq
          have hfound := ih.mpr ⟨htail, hafter⟩
          rw [hs] at hfound
          cases hfound
          rfl
    | none =>
      have hmem := strrchr_eq_none_iff.mp hs
      constructor
      · intro h
        by_cases ha : a = c
        · rw [if_pos ha] at h
          cases h
          exact ⟨by rw [ha]; rfl, hmem⟩
        · rw [if_neg ha] at h
          cases h
      · rintro ⟨heq, -⟩
        cases before with
        | nil =>
          obtain ⟨rfl, rfl⟩ := List.cons.inj heq
          exact if_pos rfl
        | cons b before =>
          obtain ⟨-, rfl⟩ := List.cons.inj heq
          exact absurd (List.mem_append_right before List.mem_cons_self) hmem

end strrchr

/-! ### `strtoul` -/

/-- `isspace` -/
def isspace (c : Char) : Bool := c.toNat == 32 || (9 ≤ c.toNat && c.toNat ≤ 13)

/-- The sign of a number: whether it is a minus, and what follows. -/
def sign : List Char → Bool × List Char
  | '-' :: s => (true, s)
  | '+' :: s => (false, s)
  | s => (false, s)

/-- The digits of a number, after its sign, as an `unsigned long`. -/
def toULong (w : ℕ) (minus : Bool) (digits : List Char) : BitVec w :=
  if 2 ^ w ≤ Nat.ofDigitChars 10 digits 0 then BitVec.allOnes w
  else if minus then -BitVec.ofNat w (Nat.ofDigitChars 10 digits 0)
  else BitVec.ofNat w (Nat.ofDigitChars 10 digits 0)

/-- `strtoul(nptr, &endptr, 10)`: its value, and the string at `endptr`. -/
def strtoul (w : ℕ) (nptr : List Char) : BitVec w × List Char :=
  let (minus, s) := sign (nptr.dropWhile isspace)
  let digits := s.takeWhile Char.isDigit
  if digits = [] then (0, nptr) else (toULong w minus digits, s.dropWhile Char.isDigit)

/-- `s` is `n` in decimal. Leading zeros are allowed. -/
structure Decimal (s : List Char) (n : ℕ) : Prop where
  ne_nil : s ≠ []
  isDigit : ∀ c ∈ s, c.isDigit = true
  value : Nat.ofDigitChars 10 s 0 = n

theorem decimal_toDigits (n : ℕ) : Decimal (Nat.toDigits 10 n) n where
  ne_nil := Nat.toDigits_ne_nil
  isDigit _ hc := Nat.isDigit_of_mem_toDigits (by decide) (by decide) hc
  value := Nat.ofDigitChars_ten_toDigits

/-- What `strtoul` takes for a number: blanks, a sign and digits. -/
structure Numeral (s blanks sgn digits : List Char) : Prop where
  eq : s = blanks ++ sgn ++ digits
  isspace : ∀ c ∈ blanks, isspace c = true
  sgn : sgn = [] ∨ sgn = ['+'] ∨ sgn = ['-']
  ne_nil : digits ≠ []
  isDigit : ∀ c ∈ digits, c.isDigit = true

theorem Decimal.numeral {s : List Char} {n : ℕ} (h : Decimal s n) : Numeral s [] [] s :=
  ⟨rfl, nofun, .inl rfl, h.ne_nil, h.isDigit⟩

/-- A character of another kind does not occur in a numeral. -/
theorem Numeral.not_mem {s blanks sgn digits : List Char} (h : Numeral s blanks sgn digits)
    {c : Char}
    (hblank : CString.isspace c = false) (hdigit : c.isDigit = false) (hplus : c ≠ '+')
    (hminus : c ≠ '-') : c ∉ s := by
  rw [h.eq, List.mem_append, List.mem_append]
  rintro ((hmem | hmem) | hmem)
  · exact absurd (h.isspace c hmem) (Bool.eq_false_iff.mp hblank)
  · rcases h.sgn with hsgn | hsgn | hsgn
    · rw [hsgn] at hmem
      cases hmem
    · rw [hsgn] at hmem
      exact hplus (List.mem_singleton.mp hmem)
    · rw [hsgn] at hmem
      exact hminus (List.mem_singleton.mp hmem)
  · exact absurd (h.isDigit c hmem) (Bool.eq_false_iff.mp hdigit)

section strtoul

variable {w : ℕ} {s blanks sgn digits rest : List Char}

theorem isspace_eq_false_of_isDigit {c : Char} (h : c.isDigit = true) :
    CString.isspace c = false := by
  simp only [Char.isDigit, Bool.and_eq_true, decide_eq_true_eq, UInt32.le_iff_toNat_le] at h
  simp only [CString.isspace, Char.toNat, Bool.or_eq_false_iff, beq_eq_false_iff_ne,
    Bool.and_eq_false_iff, decide_eq_false_iff_not]
  have hlow : 48 ≤ c.val.toNat := h.1
  omega

theorem dropWhile_append_of_all {p : Char → Bool} (hs : ∀ c ∈ s, p c = true)
    (hrest : ∀ c ∈ rest.head?, p c = false) :
    (s ++ rest).takeWhile p = s ∧ (s ++ rest).dropWhile p = rest := by
  rw [List.takeWhile_append_of_pos hs, List.dropWhile_append_of_pos hs]
  cases rest with
  | nil => exact ⟨List.append_nil s, rfl⟩
  | cons c rest =>
    have hc : ¬ p c = true := Bool.eq_false_iff.mp (hrest c rfl)
    exact ⟨by rw [List.takeWhile_cons_of_neg hc, List.append_nil], List.dropWhile_cons_of_neg hc⟩

/-- **A numeral is read whole**, up to the first character that is not a digit. -/
theorem strtoul_append (h : Numeral s blanks sgn digits)
    (hrest : ∀ c ∈ rest.head?, c.isDigit = false) :
    strtoul w (s ++ rest) = (toULong w (sgn = ['-']) digits, rest) := by
  obtain ⟨rfl, hblanks, hsgn, hne, hdigits⟩ := h
  obtain ⟨d, digits, rfl⟩ := List.exists_cons_of_ne_nil hne
  have hd := hdigits d List.mem_cons_self
  have hhead : ∀ c ∈ (sgn ++ (d :: digits ++ rest)).head?, CString.isspace c = false := by
    intro c hc
    rcases hsgn with rfl | rfl | rfl
    · cases hc
      exact isspace_eq_false_of_isDigit hd
    · cases hc
      decide
    · cases hc
      decide
  have hdrop : (blanks ++ sgn ++ (d :: digits) ++ rest).dropWhile CString.isspace =
      sgn ++ (d :: digits ++ rest) := by
    rw [List.append_assoc, List.append_assoc]
    exact (dropWhile_append_of_all hblanks hhead).2
  have hsign : sign (sgn ++ (d :: digits ++ rest)) =
    (decide (sgn = ['-']), d :: digits ++ rest) := by
    rcases hsgn with rfl | rfl | rfl
    · have hminus : d ≠ '-' := by rintro rfl; exact absurd hd (by decide)
      have hplus : d ≠ '+' := by rintro rfl; exact absurd hd (by decide)
      show sign (d :: (digits ++ rest)) = _
      unfold sign
      split
      · next heq => exact absurd (List.cons.inj heq).1 hminus
      · next heq => exact absurd (List.cons.inj heq).1 hplus
      · rfl
    · rfl
    · rfl
  obtain ⟨htake, hrest'⟩ := dropWhile_append_of_all hdigits hrest
  rw [strtoul, hdrop, hsign]
  simp only [htake, hrest', if_neg hne]

/-- **Nothing but a numeral is read**, and nothing at all if there is none. -/
theorem strtoul_cases (w : ℕ) (s : List Char) :
    strtoul w s = (0, s) ∨
      ∃ t blanks sgn digits rest, Numeral t blanks sgn digits ∧ s = t ++ rest ∧
        (∀ c ∈ rest.head?, c.isDigit = false) ∧
        strtoul w s = (toULong w (sgn = ['-']) digits, rest) := by
  obtain ⟨blanks, hblanks⟩ : ∃ blanks, blanks = s.takeWhile CString.isspace := ⟨_, rfl⟩
  obtain ⟨tail, htail⟩ : ∃ tail, tail = s.dropWhile CString.isspace := ⟨_, rfl⟩
  have hs : s = blanks ++ tail := by rw [hblanks, htail, List.takeWhile_append_dropWhile]
  have hspace : ∀ c ∈ blanks, CString.isspace c = true := by
    intro c hc
    rw [hblanks] at hc
    exact List.mem_takeWhile_imp hc
  obtain ⟨sgn, body, hsgn, hbody, htail'⟩ : ∃ sgn body, (sgn = [] ∨ sgn = ['+'] ∨ sgn = ['-']) ∧
      (sign tail).2 = body ∧ tail = sgn ++ body := by
    unfold sign
    split
    · exact ⟨['-'], _, .inr (.inr rfl), rfl, rfl⟩
    · exact ⟨['+'], _, .inr (.inl rfl), rfl, rfl⟩
    · exact ⟨[], tail, .inl rfl, rfl, rfl⟩
  by_cases hnone : body.takeWhile Char.isDigit = []
  · refine .inl ?_
    rw [strtoul, ← htail]
    simp only [hbody, hnone, if_true]
  · have hrest : ∀ c ∈ (body.dropWhile Char.isDigit).head?, c.isDigit = false := by
      intro c hc
      have := List.head?_dropWhile_not Char.isDigit body
      grind
    have hnum : Numeral (blanks ++ sgn ++ body.takeWhile Char.isDigit) blanks sgn
        (body.takeWhile Char.isDigit) :=
      ⟨rfl, hspace, hsgn, hnone, fun c hc => List.mem_takeWhile_imp hc⟩
    have hsplit : s = blanks ++ sgn ++ body.takeWhile Char.isDigit ++
      body.dropWhile Char.isDigit := by
      rw [List.append_assoc _ (body.takeWhile _), List.takeWhile_append_dropWhile, hs, htail',
        List.append_assoc]
    refine .inr ⟨_, blanks, sgn, _, _, hnum, hsplit, hrest, ?_⟩
    conv_lhs => rw [hsplit]
    exact strtoul_append hnum hrest

/-- What is behind the whole string is no digit. -/
theorem not_isDigit_nil : ∀ c ∈ ([] : List Char).head?, c.isDigit = false := nofun

theorem toULong_of_lt {n : ℕ} (h : Decimal s n) (hn : n < 2 ^ w) :
    toULong w false s = BitVec.ofNat w n := by
  rw [toULong, h.value, if_neg (Nat.not_le.mpr hn)]
  rfl

end strtoul

end CString
