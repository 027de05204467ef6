import Xcb.Internal.CString
import Xcb.Output

/-!
# Display names: `xcb_util.c`

`_xcb_parse_display` looks for the last `/` and the last `:` from the right and leaves the numbers
to `strtoul`. Whatever name it is given, it reads a display name as it was meant when the name is
one. It does not notice everything that is not one: `strtoul` also takes blanks and a sign, and
a number that is too large for an `int` is cut down to one. So is the length of a part that is
copied.

The build has no `HAVE_LAUNCHD`, and `malloc` grants what it can. `w` is the width of
`unsigned long`.

## Main definitions

* `DisplayPointers` — what the caller's pointers point to
* `copyPart` — a part of the name is copied
* `parseDisplayProtocol` — `_xcb_parse_display`
* `parseDisplay` — `xcb_parse_display`

## Main results

* `parseDisplay_join_iff` — when a display name is read as it was put together
* `parseDisplay_sound_iff` — when what is accepted is a display name with the numbers it says
-/

namespace Xcb

open CString

/-- What `host`, `protocol`, `displayp` and `screenp` point to. `protocol` and `screen` are `none`
where the pointer is null; a `char *` is `none` where it points to no string. -/
structure DisplayPointers where
  host : Option (List Char)
  protocol : Option (Option (List Char))
  display : ℤ
  screen : Option ℤ
  deriving DecidableEq, Repr

/-- The conversion of an `unsigned long` to `int`. -/
def ulongToInt {w : ℕ} (n : BitVec w) : ℤ := (n.setWidth 32).toInt

/-- The name that is parsed: the argument, or `DISPLAY` if it is null or empty. -/
def displayName (name display : Option (List Char)) : Option (List Char) :=
  if name.getD [] = [] then display else name

/-- The part of a display name before the last `/`, and the part after it. -/
def splitProtocol (name : List Char) : Option (List Char) × List Char :=
  match strrchr '/' name with
  | some (protocol, name) => (some protocol, name)
  | none => (none, name)

/-- Display and screen, from the string after the last `:`; `none` for `goto error_out`. -/
def parseNumbers (w : ℕ) (colon : List Char) : Option (ℤ × ℤ) :=
  let (display, dot) := strtoul w colon
  if dot = colon then none
  else match dot with
    | [] => some (ulongToInt display, 0)
    | '.' :: dot =>
      let (screen, ptr) := strtoul w dot
      if ptr = dot ∨ ptr ≠ [] then none else some (ulongToInt display, ulongToInt screen)
    | _ => none

/-- What stands before the last `:`, display and screen, of the name after the `/`. -/
def parseHost (w : ℕ) (name : List Char) : Option (List Char × ℤ × ℤ) :=
  match strrchr ':' name with
  | some (host, colon) => (parseNumbers w colon).map fun numbers => (host, numbers)
  | none => none

/-- A part of the name is copied: its length becomes the `int` `len`, and then come
`malloc(len + 1)`, `memcpy` and the closing `NUL`. The copy is `none` where `malloc` fails, which it
does with a negative number of bytes, near `2 ^ 64` as a `size_t`; other memory is `granted` or not.
Nothing is defined where `len + 1` is not an `int`, or where `memcpy` has to copy `-1` bytes. -/
def copyPart (granted : Bool) (part : List Char) : Option (Option (List Char)) :=
  let len := toCInt part.length
  if len = 2 ^ 31 - 1 then none
  else if granted ∧ -1 ≤ len then
    if len = -1 then none else some (some (part.take len.toNat))
  else some none

/-- `error_out` -/
def DisplayPointers.noProtocol (p : DisplayPointers) : DisplayPointers :=
  { p with protocol := p.protocol.map fun _ => none }

/-- `_xcb_parse_display`, from where the protocol has been copied. -/
def parseUnprefixed (w : ℕ) (name : List Char) (p : DisplayPointers) :
    Option (Bool × DisplayPointers) :=
  match parseHost w name with
  | none => some (false, p.noProtocol)
  | some (host, display, screen) =>
    match copyPart true host with
    | none => none
    | some none => some (false, { p with host := none }.noProtocol)
    | some (some host) =>
      some (true, ⟨some host, p.protocol, display, p.screen.map fun _ => screen⟩)

/-- `_xcb_parse_display`, where `DISPLAY` is set to `display`; `none` where it does what is not
defined. -/
def parseDisplayProtocol (w : ℕ) (name display : Option (List Char)) (p : DisplayPointers) :
    Option (Bool × DisplayPointers) :=
  match displayName name display with
  | none => some (false, p)
  | some name =>
    match p.protocol, splitProtocol name with
    | none, (_, name) => parseUnprefixed w name p
    | some _, (none, name) => parseUnprefixed w name { p with protocol := some none }
    | some _, (some protocol, name) =>
      match copyPart true protocol with
      | none => none
      | some none => some (false, { p with protocol := some none })
      | some (some protocol) => parseUnprefixed w name { p with protocol := some (some protocol) }

/-- `xcb_parse_display` -/
def parseDisplay (w : ℕ) (name display : Option (List Char)) (p : DisplayPointers) :
    Option (Bool × DisplayPointers) :=
  (parseDisplayProtocol w name display { p with protocol := none }).map fun result =>
    (result.1, { result.2 with protocol := p.protocol })

/-! ### Copies -/

/-- A part that is not too long is copied. -/
theorem copyPart_of_lt {part : List Char} (h : part.length < 2 ^ 31 - 1) :
    copyPart true part = some (some part) := by
  have hlen : toCInt part.length = part.length := toCInt_of_lt (by omega)
  rw [copyPart, hlen, if_neg (by omega), if_pos ⟨rfl, by omega⟩, if_neg (by omega),
    Int.toNat_natCast, List.take_length]

/-- Without memory there is no copy. -/
theorem copyPart_false {part : List Char} (h : part.length < 2 ^ 31 - 1) :
    copyPart false part = some none := by
  have hlen : toCInt part.length = part.length := toCInt_of_lt (by omega)
  rw [copyPart, hlen, if_neg (by omega), if_neg fun hgranted => Bool.false_ne_true hgranted.1]

/-- One that is too long is not. -/
theorem copyPart_eq_self_iff {part : List Char} :
    copyPart true part = some (some part) ↔ part.length < 2 ^ 31 - 1 := by
  refine ⟨fun h => ?_, copyPart_of_lt⟩
  have hlt : toCInt part.length < 2 ^ 31 := BitVec.toInt_lt
  rw [copyPart] at h
  split at h
  · cases h
  · next hmax =>
    split at h
    · split at h
      · cases h
      · have htake := congrArg List.length (Option.some_inj.mp (Option.some_inj.mp h))
        rw [List.length_take] at htake
        omega
    · cases h

/-- When there is no copy, its length is negative. -/
theorem copyPart_eq_none_iff {part : List Char} :
    copyPart true part = some none ↔ toCInt part.length < -1 := by
  rw [copyPart]
  split
  · next hmax =>
    rw [hmax]
    simp
  · split
    · next hgranted =>
      have hle := hgranted.2
      split <;> simp [hle]
    · next hgranted =>
      have hlt : ¬ -1 ≤ toCInt part.length := fun hle => hgranted ⟨rfl, hle⟩
      simp [Int.not_le.mp hlt]

/-! ### What is accepted -/

/-- `host:display` or `host:display.screen` -/
def joinNumbers (host display : List Char) (screen : Option (List Char)) : List Char :=
  host ++ ':' :: (display ++ screen.elim [] ('.' :: ·))

/-- A display name, put together from its parts. -/
def joinName (protocol : Option (List Char)) (host display : List Char)
    (screen : Option (List Char)) : List Char :=
  protocol.elim [] (· ++ ['/']) ++ joinNumbers host display screen

/-- What `strtoul` takes for a number. -/
def IsNumeral (s : List Char) : Prop := ∃ blanks sgn digits, Numeral s blanks sgn digits

/-- The `int` that is made of a number. -/
def readNumber (w : ℕ) (s : List Char) : ℤ := ulongToInt (strtoul w s).1

section

variable {w : ℕ} {s host display : List Char} {screen : Option (List Char)}

theorem IsNumeral.not_mem (h : IsNumeral s) {c : Char} (hblank : isspace c = false)
    (hdigit : c.isDigit = false) (hplus : c ≠ '+') (hminus : c ≠ '-') : c ∉ s := by
  obtain ⟨blanks, sgn, digits, h⟩ := h
  exact h.not_mem hblank hdigit hplus hminus

theorem IsNumeral.ne_nil (h : IsNumeral s) : s ≠ [] := by
  obtain ⟨blanks, sgn, digits, h⟩ := h
  rw [h.eq]
  exact List.append_ne_nil_of_right_ne_nil _ h.ne_nil

theorem IsNumeral.strtoul_append (h : IsNumeral s) {rest : List Char}
    (hrest : ∀ c ∈ rest.head?, c.isDigit = false) :
    ∃ n, strtoul w (s ++ rest) = (n, rest) ∧ ulongToInt n = readNumber w s := by
  obtain ⟨blanks, sgn, digits, h⟩ := h
  have hwhole := CString.strtoul_append (w := w) h CString.not_isDigit_nil
  rw [List.append_nil] at hwhole
  refine ⟨_, CString.strtoul_append h hrest, ?_⟩
  rw [readNumber, hwhole]

/-- **The numbers** are one or two numerals, with a dot between them. -/
theorem parseNumbers_join (hdisplay : IsNumeral display) (hscreen : ∀ s ∈ screen, IsNumeral s) :
    parseNumbers w (display ++ screen.elim [] ('.' :: ·)) =
      some (readNumber w display, screen.elim 0 (readNumber w)) := by
  have hne := hdisplay.ne_nil
  cases screen with
  | none =>
    obtain ⟨n, hn, hread⟩ := hdisplay.strtoul_append (w := w) CString.not_isDigit_nil
    show parseNumbers w (display ++ []) = some (readNumber w display, 0)
    rw [parseNumbers, hn, ← hread]
    simp [Ne.symm hne]
  | some s =>
    have hs := hscreen s rfl
    have hdot : ∀ c ∈ ('.' :: s).head?, c.isDigit = false := by
      rintro c ⟨⟩
      decide
    obtain ⟨n, hn, hread⟩ := hdisplay.strtoul_append (w := w) hdot
    obtain ⟨m, hm, hread'⟩ := hs.strtoul_append (w := w) CString.not_isDigit_nil
    rw [List.append_nil] at hm
    show parseNumbers w (display ++ '.' :: s) = some (readNumber w display, readNumber w s)
    rw [parseNumbers, hn, ← hread, ← hread']
    simp [hm, hne, Ne.symm hs.ne_nil]

/-- A string that is read starts with a numeral. -/
theorem IsNumeral.of_strtoul {n : BitVec w} {rest : List Char} (h : strtoul w s = (n, rest))
    (hne : rest ≠ s) : ∃ t, IsNumeral t ∧ s = t ++ rest := by
  rcases strtoul_cases w s with hnone | ⟨t, blanks, sgn, digits, rest', hnum, hs, -, hread⟩
  · rw [hnone] at h
    exact absurd (Prod.mk.inj h).2.symm hne
  · rw [hread] at h
    obtain ⟨-, rfl⟩ := Prod.mk.inj h
    exact ⟨t, ⟨blanks, sgn, digits, hnum⟩, hs⟩

theorem exists_of_parseNumbers {colon : List Char} {numbers : ℤ × ℤ}
    (h : parseNumbers w colon = some numbers) :
    ∃ (display : List Char) (screen : Option (List Char)), IsNumeral display ∧
      (∀ s ∈ screen, IsNumeral s) ∧ colon = display ++ screen.elim [] ('.' :: ·) := by
  rw [parseNumbers] at h
  generalize hread : strtoul w colon = result at h
  obtain ⟨n, dot⟩ := result
  dsimp only at h
  split at h
  · cases h
  · next hdot =>
    obtain ⟨display, hdisplay, hcolon⟩ := IsNumeral.of_strtoul hread hdot
    split at h
    · exact ⟨display, none, hdisplay, nofun, hcolon⟩
    · next screen =>
      generalize hread' : strtoul w screen = result at h
      obtain ⟨m, ptr⟩ := result
      dsimp only at h
      split at h
      · cases h
      · next hptr =>
        obtain ⟨hne, hnil⟩ := not_or.mp hptr
        obtain ⟨s, hs, hscreen⟩ := IsNumeral.of_strtoul hread' hne
        rw [not_not.mp hnil, List.append_nil] at hscreen
        subst hscreen
        refine ⟨display, some screen, hdisplay, ?_, hcolon⟩
        rintro s ⟨⟩
        exact hs
    · cases h

/-- **Host and numbers** are what they were put together from. -/
theorem parseHost_join (hdisplay : IsNumeral display) (hscreen : ∀ s ∈ screen, IsNumeral s) :
    parseHost w (joinNumbers host display screen) =
      some (host, readNumber w display, screen.elim 0 (readNumber w)) := by
  have hcolon : ':' ∉ display ++ screen.elim [] ('.' :: ·) := by
    rw [List.mem_append, not_or]
    refine ⟨hdisplay.not_mem (by decide) (by decide) (by decide) (by decide), ?_⟩
    cases screen with
    | none => exact List.not_mem_nil
    | some s =>
      have hs := (hscreen s rfl).not_mem (c := ':') (by decide) (by decide) (by decide) (by decide)
      rw [Option.elim_some, List.mem_cons, not_or]
      exact ⟨by decide, hs⟩
  have hfound : strrchr ':' (joinNumbers host display screen) = some (host, _) :=
    strrchr_eq_some_iff.mpr ⟨rfl, hcolon⟩
  rw [parseHost, hfound]
  simp only [parseNumbers_join hdisplay hscreen, Option.map_some]

theorem exists_of_parseHost {name : List Char} {found : List Char × ℤ × ℤ}
    (h : parseHost w name = some found) :
    ∃ (host display : List Char) (screen : Option (List Char)), IsNumeral display ∧
      (∀ s ∈ screen, IsNumeral s) ∧ name = joinNumbers host display screen := by
  rw [parseHost] at h
  split at h
  · next host colon hfound =>
    obtain ⟨numbers, hnumbers, -⟩ := Option.map_eq_some_iff.mp h
    obtain ⟨display, screen, hdisplay, hscreen, hcolon⟩ := exists_of_parseNumbers hnumbers
    refine ⟨host, display, screen, hdisplay, hscreen, ?_⟩
    rw [(strrchr_eq_some_iff.mp hfound).1, hcolon]
    rfl
  · cases h

theorem length_of_parseHost {name : List Char} {numbers : ℤ × ℤ}
    (h : parseHost w name = some (host, numbers)) : host.length ≤ name.length := by
  rw [parseHost] at h
  split at h
  · next before colon hfound =>
    obtain ⟨found, -, heq⟩ := Option.map_eq_some_iff.mp h
    obtain ⟨rfl, -⟩ := Prod.mk.inj heq
    rw [(strrchr_eq_some_iff.mp hfound).1]
    simp
  · cases h

/-- The parts of a name around its last `/`. -/
theorem splitProtocol_eq_iff {protocol : Option (List Char)} {name rest : List Char} :
    splitProtocol name = (protocol, rest) ↔
      name = protocol.elim [] (· ++ ['/']) ++ rest ∧ '/' ∉ rest := by
  rw [splitProtocol]
  split
  · next before after hfound =>
    obtain ⟨rfl, hlast⟩ := strrchr_eq_some_iff.mp hfound
    constructor
    · rintro ⟨⟩
      exact ⟨by simp, hlast⟩
    · rintro ⟨heq, hrest⟩
      cases protocol with
      | none =>
        rw [Option.elim_none, List.nil_append] at heq
        rw [← heq] at hrest
        exact absurd (List.mem_append_right before List.mem_cons_self) hrest
      | some protocol =>
        have hsplit : strrchr '/' (before ++ '/' :: after) = some (protocol, rest) :=
          strrchr_eq_some_iff.mpr ⟨by simpa using heq, hrest⟩
        rw [hfound] at hsplit
        cases hsplit
        rfl
  · next hnone =>
    have hmem := strrchr_eq_none_iff.mp hnone
    constructor
    · rintro ⟨⟩
      exact ⟨rfl, hmem⟩
    · rintro ⟨heq, -⟩
      cases protocol with
      | none => rw [heq]; rfl
      | some protocol =>
        rw [heq] at hmem
        simp at hmem

theorem length_of_splitProtocol {protocol : Option (List Char)} {name rest : List Char}
    (h : splitProtocol name = (protocol, rest)) :
    (∀ s ∈ protocol, s.length ≤ name.length) ∧ rest.length ≤ name.length := by
  obtain ⟨rfl, -⟩ := splitProtocol_eq_iff.mp h
  refine ⟨?_, by simp⟩
  rintro s rfl
  simp only [Option.elim_some, List.length_append]
  omega

theorem joinNumbers_inj {host' display' : List Char} {screen' : Option (List Char)}
    (hdisplay : IsNumeral display) (hscreen : ∀ s ∈ screen, IsNumeral s)
    (hdisplay' : IsNumeral display') (hscreen' : ∀ s ∈ screen', IsNumeral s)
    (h : joinNumbers host display screen = joinNumbers host' display' screen') :
    host = host' ∧ display = display' ∧ screen = screen' := by
  have hparse : parseHost 32 (joinNumbers host display screen) = _ :=
    parseHost_join hdisplay hscreen
  have hhost := hparse.symm.trans
    ((congrArg (parseHost 32) h).trans (parseHost_join hdisplay' hscreen'))
  obtain ⟨rfl, -⟩ := Prod.mk.inj (Option.some.inj hhost)
  have htail := (List.cons.inj (List.append_cancel_left h)).2
  have hdot : ∀ {s : List Char}, IsNumeral s → ∀ c ∈ s, (c != '.') = true := by
    intro s hs c hc
    rw [bne_iff_ne]
    rintro rfl
    exact hs.not_mem (by decide) (by decide) (by decide) (by decide) hc
  have hrest : ∀ screen : Option (List Char), ∀ c ∈ (screen.elim [] ('.' :: ·)).head?,
      (c != '.') = false := by
    rintro (- | s) c hc
    · cases hc
    · cases hc
      decide
  have hleft := dropWhile_append_of_all (hdot hdisplay) (hrest screen)
  have hright := dropWhile_append_of_all (hdot hdisplay') (hrest screen')
  rw [htail] at hleft
  refine ⟨rfl, hleft.1.symm.trans hright.1, ?_⟩
  have hscreens := hleft.2.symm.trans hright.2
  cases screen <;> cases screen' <;> simp_all

theorem readNumber_lt (w : ℕ) (s : List Char) : readNumber w s < 2 ^ 31 :=
  BitVec.toInt_lt

theorem readNumber_of_decimal (hw : 32 ≤ w) {n : ℕ} (h : Decimal s n) (hn : n < 2 ^ 31) :
    readNumber w s = n := by
  have hpow : 2 ^ 32 ≤ 2 ^ w := Nat.pow_le_pow_right (by decide) hw
  have hread := strtoul_append (w := w) h.numeral CString.not_isDigit_nil
  rw [List.append_nil] at hread
  have hvalue : ((BitVec.ofNat w n).setWidth 32).toNat = n := by
    rw [BitVec.toNat_setWidth, BitVec.toNat_ofNat, Nat.mod_eq_of_lt (a := n) (by omega),
      Nat.mod_eq_of_lt (by omega)]
  rw [readNumber, hread]
  show ulongToInt (toULong w false s) = n
  rw [toULong_of_lt h (by omega), ulongToInt, BitVec.toInt_eq_toNat_of_lt (by omega), hvalue]

/-- The numbers of a screen, `0` if there is none. -/
def ScreenNumber (screen : Option (List Char)) (s : ℕ) : Prop := screen.elim (s = 0) (Decimal · s)

theorem ScreenNumber.isNumeral {n : ℕ} (h : ScreenNumber screen n) : ∀ s ∈ screen, IsNumeral s := by
  rintro s rfl
  exact ⟨[], [], s, Decimal.numeral h⟩

theorem ScreenNumber.read (hw : 32 ≤ w) {n : ℕ} (h : ScreenNumber screen n) (hn : n < 2 ^ 31) :
    screen.elim 0 (readNumber w) = n := by
  cases screen with
  | none => exact (congrArg Nat.cast h).symm
  | some s => exact readNumber_of_decimal hw h hn

/-- `xcb_parse_display`, on a name whose parts are known. -/
theorem parseDisplay_eq {name env : Option (List Char)} {p : DisplayPointers}
    {protocol : Option (List Char)} {text rest : List Char}
    (htext : displayName name env = some text) (hsplit : splitProtocol text = (protocol, rest)) :
    parseDisplay w name env p =
      (parseUnprefixed w rest { p with protocol := none }).map fun result =>
        (result.1, { result.2 with protocol := p.protocol }) := by
  rw [parseDisplay, parseDisplayProtocol, htext]
  simp only [hsplit]

theorem not_mem_joinNumbers (hhost : '/' ∉ host) (hdisplay : IsNumeral display)
    (hscreen : ∀ s ∈ screen, IsNumeral s) : '/' ∉ joinNumbers host display screen := by
  have hslash : ∀ {s : List Char}, IsNumeral s → '/' ∉ s := fun hs =>
    hs.not_mem (by decide) (by decide) (by decide) (by decide)
  simp only [joinNumbers, List.mem_append, List.mem_cons, not_or]
  refine ⟨hhost, by decide, hslash hdisplay, ?_⟩
  cases screen with
  | none => exact List.not_mem_nil
  | some s =>
    rw [Option.elim_some, List.mem_cons, not_or]
    exact ⟨by decide, hslash (hscreen s rfl)⟩

theorem splitProtocol_join {protocol : Option (List Char)} (hhost : '/' ∉ host)
    (hdisplay : IsNumeral display) (hscreen : ∀ s ∈ screen, IsNumeral s) :
    splitProtocol (joinName protocol host display screen) =
      (protocol, joinNumbers host display screen) :=
  splitProtocol_eq_iff.mpr ⟨rfl, not_mem_joinNumbers hhost hdisplay hscreen⟩

/-! ### Display names -/

theorem displayName_join {protocol : Option (List Char)} {name env : Option (List Char)}
    (hname : name = some (joinName protocol host display screen) ∨
      (name = none ∨ name = some []) ∧ env = some (joinName protocol host display screen)) :
    displayName name env = some (joinName protocol host display screen) := by
  have hne : joinName protocol host display screen ≠ [] := by
    simp [joinName, joinNumbers]
  rw [displayName]
  rcases hname with rfl | ⟨rfl | rfl, rfl⟩
  · rw [Option.getD_some, if_neg hne]
  · rfl
  · rfl

/-- Behind the protocol, a display name is read as it was put together if the host is not too
long. -/
theorem parseUnprefixed_join_iff (hdisplay : IsNumeral display)
    (hscreen : ∀ s ∈ screen, IsNumeral s) {p : DisplayPointers} {q : Option (Option (List Char))} :
    parseUnprefixed w (joinNumbers host display screen) p =
        some (true, ⟨some host, q, readNumber w display,
          p.screen.map fun _ => screen.elim 0 (readNumber w)⟩) ↔
      host.length < 2 ^ 31 - 1 ∧ p.protocol = q := by
  rw [parseUnprefixed, parseHost_join hdisplay hscreen, ← copyPart_eq_self_iff]
  dsimp only
  cases hcopy : copyPart true host with
  | none => simp
  | some copy =>
    cases copy with
    | none => simp
    | some copy => simp

/-- **When a display name is read as it was put together**: `[protocol/]host:display[.screen]`, with
the host as it may be and both numbers in an `int`, given as the argument or in `DISPLAY`. The
length of each part that is copied has to be an `int`, with the `NUL`. -/
theorem parseDisplay_join_iff (hw : 32 ≤ w) {protocol : Option (List Char)} {d n : ℕ}
    (hhost : '/' ∉ host) (hdisplay : Decimal display d) (hscreen : ScreenNumber screen n)
    (hd : d < 2 ^ 31) (hn : n < 2 ^ 31) {name env : Option (List Char)}
    (hname : name = some (joinName protocol host display screen) ∨
      (name = none ∨ name = some []) ∧ env = some (joinName protocol host display screen))
    (p : DisplayPointers) :
    (parseDisplayProtocol w name env p =
        some (true, ⟨some host, p.protocol.map fun _ => protocol, d,
          p.screen.map fun _ => (n : ℤ)⟩) ↔
      host.length < 2 ^ 31 - 1 ∧
        (p.protocol ≠ none → ∀ s ∈ protocol, s.length < 2 ^ 31 - 1)) ∧
    (parseDisplay w name env p =
        some (true, ⟨some host, p.protocol, d, p.screen.map fun _ => (n : ℤ)⟩) ↔
      host.length < 2 ^ 31 - 1) := by
  have hnumeral : IsNumeral display := ⟨[], [], display, hdisplay.numeral⟩
  have htext := displayName_join hname
  have hsplit : splitProtocol (joinName protocol host display screen) = _ :=
    splitProtocol_join hhost hnumeral hscreen.isNumeral
  have hread : ∀ (p : DisplayPointers) (q : Option (Option (List Char))),
      parseUnprefixed w (joinNumbers host display screen) p =
          some (true, ⟨some host, q, d, p.screen.map fun _ => (n : ℤ)⟩) ↔
        host.length < 2 ^ 31 - 1 ∧ p.protocol = q := by
    intro p q
    rw [← parseUnprefixed_join_iff hnumeral hscreen.isNumeral, readNumber_of_decimal hw hdisplay hd,
      hscreen.read hw hn]
  constructor
  · rw [parseDisplayProtocol, htext]
    simp only [hsplit]
    cases hp : p.protocol with
    | none => simpa [hp] using hread p none
    | some old =>
      cases protocol with
      | none => simpa using hread { p with protocol := some none } (some none)
      | some protocol =>
        have hself : (some old ≠ none → ∀ s ∈ some protocol, s.length < 2 ^ 31 - 1) ↔
            copyPart true protocol = some (some protocol) := by
          simp [copyPart_eq_self_iff]
        rw [hself]
        dsimp only
        cases copyPart true protocol with
        | none => simp
        | some copy =>
          cases copy with
          | none => simp
          | some copy =>
            have hcopied := hread { p with protocol := some (some copy) } (some (some protocol))
            simpa using hcopied
  · rw [parseDisplay_eq htext hsplit, parseUnprefixed, parseHost_join hnumeral hscreen.isNumeral,
      readNumber_of_decimal hw hdisplay hd, hscreen.read hw hn, ← copyPart_eq_self_iff]
    dsimp only
    cases copyPart true host with
    | none => simp
    | some copy => cases copy <;> simp [DisplayPointers.noProtocol]

theorem parseDisplay_join_hydra :
    parseDisplay 64 (some ['h', 'y', 'd', 'r', 'a', ':', ':', '0', '.', '1']) none
        ⟨none, none, -42, some (-42)⟩ =
      some (true, ⟨some ['h', 'y', 'd', 'r', 'a', ':'], none, 0, some 1⟩) :=
  ((parseDisplay_join_iff (show 32 ≤ 64 by decide)
    (show '/' ∉ ['h', 'y', 'd', 'r', 'a', ':'] by decide)
    (decimal_toDigits 0) (show ScreenNumber (some (Nat.toDigits 10 1)) 1 from decimal_toDigits 1)
    (by decide) (by decide) (.inl (show _ = some (joinName none _ _ _) from rfl))
    ⟨none, none, -42, some (-42)⟩).2).mpr (by decide)

/-- Of a host that is too long for an `int` the remainder of its length is stored. -/
theorem parseDisplay_join_of_length (hhost : '/' ∉ host) (hdisplay : Decimal display 0) {n : ℕ}
    (hn : n < 2 ^ 31 - 1) (hlen : host.length = 2 ^ 32 + n) (p : DisplayPointers) :
    parseDisplay 64 (some (joinName none host display none)) none p =
      some (true, ⟨some (host.take n), p.protocol, 0, p.screen.map fun _ => 0⟩) := by
  have hnumeral : IsNumeral display := ⟨[], [], display, hdisplay.numeral⟩
  have hint : toCInt host.length = n := by
    have hmod : BitVec.ofNat 32 (2 ^ 32 + n) = BitVec.ofNat 32 n :=
      BitVec.eq_of_toNat_eq (by rw [BitVec.toNat_ofNat, BitVec.toNat_ofNat, Nat.add_mod_left])
    rw [hlen, toCInt, hmod]
    exact toCInt_of_lt (by omega)
  have hcopy : copyPart true host = some (some (host.take n)) := by
    rw [copyPart, hint, if_neg (by omega), if_pos ⟨rfl, by omega⟩, if_neg (by omega),
      Int.toNat_natCast]
  have hscreen : ∀ s ∈ (none : Option (List Char)), IsNumeral s := fun s hs =>
    absurd hs (Option.not_mem_none s)
  rw [parseDisplay_eq (displayName_join (.inl rfl)) (splitProtocol_join hhost hnumeral hscreen),
    parseUnprefixed, parseHost_join hnumeral hscreen,
    readNumber_of_decimal (by decide) hdisplay (by decide)]
  simp only [hcopy]
  rfl

/-- `a…a:0`, with `2 ^ 32 + 3` letters. -/
theorem parseDisplay_join_cut :
    parseDisplay 64 (some (joinName none (List.replicate (2 ^ 32 + 3) 'a') ['0'] none)) none
        ⟨none, none, -42, none⟩ =
      some (true, ⟨some ['a', 'a', 'a'], none, 0, none⟩) := by
  have hslash : '/' ∉ List.replicate (2 ^ 32 + 3) 'a' := fun hmem =>
    absurd (List.eq_of_mem_replicate hmem) (by decide)
  have hparse := parseDisplay_join_of_length hslash (decimal_toDigits 0)
    (show 3 < 2 ^ 31 - 1 by decide) List.length_replicate ⟨none, none, -42, none⟩
  rw [List.take_replicate, Nat.min_eq_left (by decide)] at hparse
  exact hparse

/-- What is accepted is a display name, and what is stored are its parts; nothing is stored when
the name is rejected. -/
def ParsesSoundly (w : ℕ) (name env : Option (List Char)) (p : DisplayPointers) : Prop :=
  match parseDisplay w name env p with
  | some (true, q) =>
    ∃ (protocol screen : Option (List Char)) (host display : List Char) (d n : ℕ),
      displayName name env = some (joinName protocol host display screen) ∧ '/' ∉ host ∧
        Decimal display d ∧ ScreenNumber screen n ∧
          q = ⟨some host, p.protocol, d, p.screen.map fun _ => (n : ℤ)⟩
  | some (false, q) => q = p
  | none => False

/-- **When only display names are accepted**: the numbers around the last dot have neither blanks
nor a sign, and those that are stored fit into an `int`, as the length of the host does. A host for
which there is no memory does no harm where the caller's pointer is null already. Names of other
forms are rejected. -/
theorem parseDisplay_sound_iff (hw : 32 ≤ w) (name env : Option (List Char)) (p : DisplayPointers) :
    ParsesSoundly w name env p ↔
      ∀ (protocol screen : Option (List Char)) (host display : List Char),
        displayName name env = some (joinName protocol host display screen) → '/' ∉ host →
        IsNumeral display → (∀ s ∈ screen, IsNumeral s) →
          (host.length < 2 ^ 31 - 1 ∧ (∃ d < 2 ^ 31, Decimal display d) ∧
            ∃ n, ScreenNumber screen n ∧ (p.screen ≠ none → n < 2 ^ 31)) ∨
          (toCInt host.length < -1 ∧ p.host = none) := by
  constructor
  · intro hsound protocol screen host display htext hhost hdisplay hscreen
    have hsplit : splitProtocol (joinName protocol host display screen) = _ :=
      splitProtocol_join hhost hdisplay hscreen
    rw [ParsesSoundly, parseDisplay_eq htext hsplit, parseUnprefixed,
      parseHost_join hdisplay hscreen] at hsound
    dsimp only at hsound
    cases hcopy : copyPart true host with
    | none =>
      rw [hcopy] at hsound
      exact hsound.elim
    | some copy =>
      rw [hcopy] at hsound
      cases copy with
      | none =>
        exact .inr ⟨copyPart_eq_none_iff.mp hcopy, (DisplayPointers.mk.inj hsound).1.symm⟩
      | some copy =>
        obtain ⟨protocol', screen', host', display', d, n, htext', hhost', hd, hn, hstored⟩ :=
          hsound
        have hdisplay' : IsNumeral display' := ⟨[], [], display', hd.numeral⟩
        rw [htext, Option.some_inj] at htext'
        rw [htext', splitProtocol_join hhost' hdisplay' hn.isNumeral] at hsplit
        obtain ⟨-, hjoin⟩ := Prod.mk.inj hsplit
        obtain ⟨rfl, rfl, rfl⟩ := joinNumbers_inj hdisplay' hn.isNumeral hdisplay hscreen hjoin
        obtain ⟨hhosts, -, hnumber, hscreens⟩ := DisplayPointers.mk.inj hstored
        obtain rfl := Option.some_inj.mp hhosts
        have hd' : (d : ℤ) < 2 ^ 31 := hnumber ▸ readNumber_lt w display'
        refine .inl ⟨copyPart_eq_self_iff.mp hcopy, ⟨d, by omega, hd⟩, n, hn, fun hpointer => ?_⟩
        obtain ⟨old, hold⟩ := Option.ne_none_iff_exists'.mp hpointer
        dsimp only at hscreens
        rw [hold] at hscreens
        have hvalue : screen'.elim 0 (readNumber w) = (n : ℤ) := Option.some_inj.mp hscreens
        cases screen' with
        | none =>
          rw [show n = 0 from hn]
          decide
        | some s =>
          have hn' := readNumber_lt w s
          rw [Option.elim_some] at hvalue
          omega
  · intro hfields
    rw [ParsesSoundly]
    cases htext : displayName name env with
    | none =>
      rw [parseDisplay, parseDisplayProtocol, htext]
      exact rfl
    | some text =>
      rcases hsplit : splitProtocol text with ⟨protocol, rest⟩
      rw [parseDisplay_eq htext hsplit, parseUnprefixed]
      cases hfound : parseHost w rest with
      | none => exact rfl
      | some found =>
        obtain ⟨host, display, screen, hdisplay, hscreen, hrest⟩ := exists_of_parseHost hfound
        obtain ⟨heq, hslash⟩ := splitProtocol_eq_iff.mp hsplit
        rw [hrest] at heq hslash
        have hhost : '/' ∉ host := fun hmem => hslash (List.mem_append_left _ hmem)
        rw [hrest, parseHost_join hdisplay hscreen] at hfound
        obtain rfl := Option.some_inj.mp hfound
        dsimp only
        rcases hfields protocol screen host display (htext.trans (congrArg some heq)) hhost hdisplay
            hscreen with ⟨hlen, ⟨d, hlt, hd⟩, n, hn, hpointer⟩ | ⟨hlen, hnull⟩
        · rw [copyPart_of_lt hlen]
          refine ⟨protocol, screen, host, display, d, n, congrArg some heq, hhost, hd, hn, ?_⟩
          show DisplayPointers.mk _ _ _ _ = _
          rw [readNumber_of_decimal hw hd hlt]
          cases hp : p.screen with
          | none => rfl
          | some old => rw [Option.map_some, Option.map_some, hn.read hw (hpointer (by simp [hp]))]
        · rw [copyPart_eq_none_iff.mpr hlen]
          obtain ⟨old, oldProtocol, oldDisplay, oldScreen⟩ := p
          obtain rfl : old = none := hnull
          rfl

/-- A blank before the number is not noticed. -/
theorem not_parsesSoundly_blank :
    ¬ ParsesSoundly 64 (some [':', ' ', '5']) none ⟨none, none, -42, some (-42)⟩ := by
  intro hsound
  rcases (parseDisplay_sound_iff (by decide) _ _ _).mp hsound none none [] [' ', '5'] rfl
      List.not_mem_nil ⟨[' '], [], ['5'], rfl, List.forall_mem_singleton.mpr rfl, .inl rfl,
        List.cons_ne_nil _ _, List.forall_mem_singleton.mpr rfl⟩ nofun with
    ⟨-, ⟨d, -, hd⟩, -⟩ | ⟨hlen, -⟩
  · exact absurd (hd.isDigit ' ' List.mem_cons_self) Bool.false_ne_true
  · exact absurd hlen (by decide)

/-- `:-1` is display `-1`. -/
theorem not_parsesSoundly_minus :
    ¬ ParsesSoundly 64 (some [':', '-', '1']) none ⟨none, none, -42, some (-42)⟩ := by
  have hparse : parseDisplay 64 (some [':', '-', '1']) none ⟨none, none, -42, some (-42)⟩ =
      some (true, ⟨some [], none, -1, some 0⟩) := by decide +kernel
  rw [ParsesSoundly, hparse]
  rintro ⟨protocol, screen, host, display, d, n, -, -, -, -, hstored⟩
  have hd : (-1 : ℤ) = d := (DisplayPointers.mk.inj hstored).2.2.1
  omega

end

end Xcb
