import Mathlib.Algebra.Order.BigOperators.Group.List
import Xcb.Output

/-!
# Partial writes: `write_vec`

`writev` writes some bytes from the front of a vector, and `write_vec` counts them off. It keeps
the length of a part in an `int`. A part with `2 ^ 31` bytes or more is cut correctly all the same
as long as its length, taken for an `int`, covers the bytes written of it.

Lengths alone decide whether that is so: `cut` and `Cuts` speak of the lengths of a vector.

## Main definitions

* `Writes`, `WritesAll` — what `writev` can return, in one call and one call after another
* `sendTurns` — the loop of `_xcb_out_send`
* `SendsExactly` — what the socket got and what is left are the bytes of the vector
* `Cuts`, `CutsAll` — the condition on the lengths

## Main results

* `writeVec_of_cuts`, `writeVec_of_not_cuts` — one call of `write_vec`
* `sendsExactly_iff` — when the loop sends what it should
-/

namespace Xcb

/-! ### The loop -/

/-- `writev` returned `n`. It writes no more bytes than there are, nor more than it can report, and
refuses vectors whose length is not an `ssize_t`. -/
structure Writes (total n : ℕ) : Prop where
  pos : 0 < n
  le : n ≤ total
  int : n < 2 ^ 31
  ssize : total < 2 ^ 63

/-- What `writev` returned in one call after another. -/
def WritesAll : ℕ → List ℕ → Prop
  | _, [] => True
  | total, n :: ns => Writes total n ∧ WritesAll (total - n) ns

/-- The loop of `_xcb_out_send`, for the turns in which `writev` writes something: the bytes
written and the vector that is left, or `none` once `assert(n == 0)` fails. -/
def sendTurns (queue : List UInt8) : List Iovec → List ℕ → Option (List UInt8 × List Iovec)
  | vector, [] => some ([], vector)
  | vector, n :: ns =>
    let (left, rest) := writeVec vector n
    if rest ≠ 0 then none
    else
      (sendTurns queue left ns).map fun (bytes, left) =>
        ((gather queue vector).take n ++ bytes, left)

/-- The assertion never failed, what was written is the front of the vector, and what is left of
the vector is the rest; nothing is left of it when nothing is left to write. -/
def SendsExactly (queue : List UInt8) (vector : List Iovec) (ns : List ℕ) : Prop :=
  ∃ left, sendTurns queue vector ns = some ((gather queue vector).take ns.sum, left) ∧
    gather queue left = (gather queue vector).drop ns.sum ∧
      (left = [] ↔ (gather queue vector).length ≤ ns.sum)

/-! ### Lengths -/

/-- The parts that are left when `n` bytes are counted off. -/
def cut : List ℕ → ℕ → List ℕ
  | [], _ => []
  | len :: lens, n => if len ≤ n then cut lens (n - len) else (len - n) :: lens

/-- The part with the first byte that is left covers what is counted off of it, as an `int`. -/
def Cuts : List ℕ → ℕ → Prop
  | [], _ => True
  | len :: lens, n => if len ≤ n then Cuts lens (n - len) else (n : ℤ) ≤ toCInt len

/-- So it is in one call after another. -/
def CutsAll : List ℕ → List ℕ → Prop
  | _, [] => True
  | lens, n :: ns => Cuts lens n ∧ CutsAll (cut lens n) ns

/-- Parts that an `int` can count are always cut correctly. -/
theorem cuts_of_short {lens : List ℕ} {n : ℕ} (h : ∀ len ∈ lens, len < 2 ^ 31) : Cuts lens n := by
  induction lens generalizing n with
  | nil => trivial
  | cons len lens ih =>
    rw [Cuts]
    split
    · exact ih fun l hl => h l (List.mem_cons_of_mem len hl)
    · rw [toCInt_of_lt (h len List.mem_cons_self)]
      omega

theorem lt_of_mem_cut {lens : List ℕ} {n bound : ℕ} (h : ∀ len ∈ lens, len < bound) :
    ∀ len ∈ cut lens n, len < bound := by
  induction lens generalizing n with
  | nil => exact nofun
  | cons l lens ih =>
    have hrest : ∀ len ∈ lens, len < bound := fun len hlen => h len (List.mem_cons_of_mem l hlen)
    rw [cut]
    split
    · exact ih hrest
    · intro len hlen
      rcases List.mem_cons.mp hlen with rfl | hlen
      · exact (Nat.sub_le l n).trans_lt (h l List.mem_cons_self)
      · exact hrest len hlen

theorem cut_eq_nil_iff {lens : List ℕ} {n : ℕ} : cut lens n = [] ↔ lens.sum ≤ n := by
  induction lens generalizing n with
  | nil => exact ⟨fun _ => Nat.zero_le n, fun _ => rfl⟩
  | cons len lens ih =>
    rw [cut, List.sum_cons]
    split
    · rw [ih]
      omega
    · refine ⟨fun h => absurd h (List.cons_ne_nil _ _), fun h => ?_⟩
      omega

/-! ### One call -/

/-- The bytes are there. -/
structure Iovec.Inside (queue : List UInt8) (v : Iovec) : Prop where
  offset : 0 ≤ v.offset
  bound : v.offset.toNat + v.len ≤ (v.memory queue).length

theorem toCInt_le (n : ℕ) : toCInt n ≤ n := by
  rw [toCInt, BitVec.toInt_ofNat', Int.bmod_def]
  split <;> omega

theorem neg_le_toCInt (n : ℕ) : -2 ^ 31 ≤ toCInt n := BitVec.le_toInt _

theorem subCInt_ne_zero {a b : ℤ} (hlt : b < a) (hle : a - b < 2 ^ 32) : subCInt a b ≠ 0 := by
  rw [subCInt, BitVec.toInt_ofInt, Int.bmod_def]
  split <;> omega

section writeVec

variable {queue : List UInt8} {v : Iovec} {vector : List Iovec} {n : ℕ}

theorem Iovec.Inside.length (h : v.Inside queue) : (v.bytes queue).length = v.len := by
  have hbound := h.bound
  rw [Iovec.bytes_eq, List.length_take, List.length_drop]
  omega

theorem length_gather (h : ∀ v ∈ vector, v.Inside queue) :
    (gather queue vector).length = (vector.map Iovec.len).sum := by
  induction vector with
  | nil => rfl
  | cons v vector ih =>
    rw [gather_cons, List.length_append, List.map_cons, List.sum_cons,
      (h v List.mem_cons_self).length, ih fun w hw => h w (List.mem_cons_of_mem v hw)]

theorem Iovec.Inside.advance (h : v.Inside queue) (hsize : v.len < 2 ^ 63) {cur : ℕ}
    (hle : cur ≤ v.len) :
    (v.advance cur).Inside queue ∧ (v.advance cur).len = v.len - cur ∧
      (v.advance cur).bytes queue = (v.bytes queue).drop cur := by
  obtain ⟨hoffset, hbound⟩ := h
  have hlen : (v.advance cur).len = v.len - cur := by
    show (((v.len : ℤ) - cur) % 2 ^ 64).toNat = v.len - cur
    omega
  have htoNat : (v.offset + cur).toNat = v.offset.toNat + cur := by omega
  refine ⟨⟨?_, ?_⟩, hlen, ?_⟩
  · show 0 ≤ v.offset + cur
    omega
  · rw [hlen]
    show (v.offset + cur).toNat + (v.len - cur) ≤ (v.memory queue).length
    omega
  · rw [Iovec.bytes_eq, Iovec.bytes_eq, hlen]
    show ((v.memory queue).drop (v.offset + cur).toNat).take (v.len - cur) = _
    rw [htoNat, List.drop_take, List.drop_drop]

/-- What the loop takes of a part it can count. -/
theorem min_toCInt (h : v.len ≤ n ∨ (n : ℤ) ≤ toCInt v.len) (hn : n < 2 ^ 31) :
    (if toCInt v.len > (n : ℤ) then (n : ℤ) else toCInt v.len) = (min v.len n : ℕ) := by
  have hle := toCInt_le v.len
  rcases h with hlen | hlen
  · rw [toCInt_of_lt (by omega)]
    split <;> omega
  · split <;> omega

/-- **One call that counts correctly**: what is left of the vector is what was not written. -/
theorem writeVec_of_cuts (hin : ∀ v ∈ vector, v.Inside queue)
    (hsize : ∀ v ∈ vector, v.len < 2 ^ 63) (hn : n < 2 ^ 31) (hle : n ≤ (vector.map Iovec.len).sum)
    (hcuts : Cuts (vector.map Iovec.len) n) :
    (writeVec vector n).2 = 0 ∧ (∀ v ∈ (writeVec vector n).1, v.Inside queue) ∧
      (writeVec vector n).1.map Iovec.len = cut (vector.map Iovec.len) n ∧
        gather queue (writeVec vector n).1 = (gather queue vector).drop n := by
  induction vector generalizing n with
  | nil =>
    obtain rfl : n = 0 := Nat.le_zero.mp hle
    exact ⟨rfl, nofun, rfl, rfl⟩
  | cons v vector ih =>
    have hv := hin v List.mem_cons_self
    have hrest : ∀ w ∈ vector, w.Inside queue := fun w hw => hin w (List.mem_cons_of_mem v hw)
    have hvsize := hsize v List.mem_cons_self
    have hrsize : ∀ w ∈ vector, w.len < 2 ^ 63 := fun w hw => hsize w (List.mem_cons_of_mem v hw)
    have hlength := hv.length
    obtain ⟨hinside, hlen, hbytes⟩ := hv.advance hvsize (Nat.min_le_left v.len n)
    rw [List.map_cons, Cuts] at hcuts
    rw [List.map_cons, List.sum_cons] at hle
    rw [List.map_cons, cut]
    by_cases hwhole : v.len ≤ n
    · -- the part was written completely
      rw [if_pos hwhole] at hcuts ⊢
      rw [Nat.min_eq_left hwhole] at hlen hbytes hinside
      have hcur := min_toCInt (.inl hwhole) hn
      rw [Nat.min_eq_left hwhole] at hcur
      simp only [writeVec, hcur, subCInt_of_le hwhole hn, hlen, Nat.sub_self, ne_eq,
        not_true_eq_false, if_false]
      obtain ⟨hleft, hin', hlens, hgather⟩ :=
        ih hrest hrsize (n := n - v.len) (by omega) (by omega) hcuts
      refine ⟨hleft, hin', hlens, ?_⟩
      have hall : (v.bytes queue).drop n = [] := List.drop_eq_nil_of_le (by omega)
      rw [hgather, gather_cons, List.drop_append, hlength, hall, List.nil_append]
    · -- the cut is in this part
      have hlt := Nat.lt_of_not_le hwhole
      rw [if_neg hwhole] at hcuts ⊢
      rw [Nat.min_eq_right hlt.le] at hlen hbytes hinside
      have hcur := min_toCInt (.inr hcuts) hn
      rw [Nat.min_eq_right hlt.le] at hcur
      have hne : (v.advance n).len ≠ 0 := by omega
      simp only [writeVec, hcur, subCInt_of_le (Nat.le_refl n) hn, if_pos hne]
      refine ⟨by rw [Nat.sub_self]; rfl, ?_, ?_, ?_⟩
      · intro w hw
        rcases List.mem_cons.mp hw with rfl | hw
        · exact hinside
        · exact hrest w hw
      · rw [List.map_cons, hlen]
      · rw [gather_cons, gather_cons, hbytes, List.drop_append_of_le_length (by omega)]

/-- **One call that does not**: the assertion fails. -/
theorem writeVec_of_not_cuts (hin : ∀ v ∈ vector, v.Inside queue)
    (hsize : ∀ v ∈ vector, v.len < 2 ^ 63) (hn : n < 2 ^ 31)
    (hcuts : ¬ Cuts (vector.map Iovec.len) n) : (writeVec vector n).2 ≠ 0 := by
  induction vector generalizing n with
  | nil => exact absurd trivial hcuts
  | cons v vector ih =>
    have hv := hin v List.mem_cons_self
    have hrest : ∀ w ∈ vector, w.Inside queue := fun w hw => hin w (List.mem_cons_of_mem v hw)
    have hvsize := hsize v List.mem_cons_self
    have hrsize : ∀ w ∈ vector, w.len < 2 ^ 63 := fun w hw => hsize w (List.mem_cons_of_mem v hw)
    rw [List.map_cons, Cuts] at hcuts
    by_cases hwhole : v.len ≤ n
    · rw [if_pos hwhole] at hcuts
      obtain ⟨-, hlen, -⟩ := hv.advance hvsize (Nat.le_refl v.len)
      have hcur := min_toCInt (.inl hwhole) hn
      rw [Nat.min_eq_left hwhole] at hcur
      simp only [writeVec, hcur, subCInt_of_le hwhole hn, hlen, Nat.sub_self, ne_eq,
        not_true_eq_false, if_false]
      exact ih hrest hrsize (by omega) hcuts
    · rw [if_neg hwhole] at hcuts
      have hbig := Nat.lt_of_not_le hwhole
      have hsmall := neg_le_toCInt v.len
      -- less is counted off than was written, and the part is not finished
      have hne : (v.advance (toCInt v.len)).len ≠ 0 := by
        show (((v.len : ℤ) - toCInt v.len) % 2 ^ 64).toNat ≠ 0
        omega
      have hcur : ¬ toCInt v.len > (n : ℤ) := by omega
      simp only [writeVec, if_neg hcur, if_pos hne]
      exact subCInt_ne_zero (by omega) (by omega)

theorem Iovec.Sane.inside (h : v.Sane queue) : v.Inside queue := ⟨h.offset, h.bound⟩

/-- **A partial write** of parts that an `int` can count. -/
theorem gather_writeVec (hsane : ∀ v ∈ vector, v.Sane queue) (hn : n < 2 ^ 31)
    (hle : n ≤ (gather queue vector).length) :
    (writeVec vector n).2 = 0 ∧
      gather queue (writeVec vector n).1 = (gather queue vector).drop n ∧
        ∀ v ∈ (writeVec vector n).1, v.Sane queue := by
  have hin : ∀ v ∈ vector, v.Inside queue := fun v hv => (hsane v hv).inside
  have hshort : ∀ len ∈ vector.map Iovec.len, len < 2 ^ 31 := by
    intro len hlen
    obtain ⟨v, hv, rfl⟩ := List.mem_map.mp hlen
    exact (hsane v hv).short
  have hsize : ∀ v ∈ vector, v.len < 2 ^ 63 := fun v hv => (hsane v hv).short.trans (by norm_num)
  obtain ⟨hleft, hin', hlens, hgather⟩ :=
    writeVec_of_cuts hin hsize hn (length_gather hin ▸ hle) (cuts_of_short hshort)
  refine ⟨hleft, hgather, fun v hv => ⟨(hin' v hv).offset, (hin' v hv).bound, ?_⟩⟩
  exact lt_of_mem_cut hshort v.len (hlens ▸ List.mem_map_of_mem hv)

/-! ### One call after another -/

/-- After the first call, the loop goes on with what it left. -/
theorem sendsExactly_cons {left : List Iovec} {ms : List ℕ} (hwrite : writeVec vector n = (left, 0))
    (hgather : gather queue left = (gather queue vector).drop n)
    (hle : n ≤ (gather queue vector).length) :
    SendsExactly queue vector (n :: ms) ↔ SendsExactly queue left ms := by
  have hturns : sendTurns queue vector (n :: ms) =
      (sendTurns queue left ms).map fun r => ((gather queue vector).take n ++ r.1, r.2) := by
    rw [sendTurns, hwrite]
    rfl
  have htake : (gather queue vector).take (n :: ms).sum =
      (gather queue vector).take n ++ (gather queue left).take ms.sum := by
    rw [List.sum_cons, List.take_add, hgather]
  have hdrop : (gather queue vector).drop (n :: ms).sum = (gather queue left).drop ms.sum := by
    rw [List.sum_cons, hgather, List.drop_drop]
  have hlength : (gather queue vector).length ≤ (n :: ms).sum ↔
      (gather queue left).length ≤ ms.sum := by
    rw [List.sum_cons, hgather, List.length_drop]
    omega
  rw [SendsExactly, SendsExactly, hturns, htake, hdrop, hlength]
  constructor
  · rintro ⟨last, hlast, hrest⟩
    obtain ⟨⟨bytes, last'⟩, hsend, heq⟩ := Option.map_eq_some_iff.mp hlast
    obtain ⟨hbytes, rfl⟩ := Prod.mk.inj heq
    obtain rfl := List.append_cancel_left hbytes
    exact ⟨last', hsend, hrest⟩
  · rintro ⟨last, hsend, hrest⟩
    exact ⟨last, by rw [hsend]; rfl, hrest⟩

/-- **When partial writes lose and repeat nothing**, after each call: in every call, the part with
the first byte that is left covers, as an `int`, the bytes that were written of it. -/
theorem sendsExactly_iff {ns : List ℕ} (hin : ∀ v ∈ vector, v.Inside queue)
    (hns : WritesAll (gather queue vector).length ns) :
    (∀ ms, ms ≠ [] → ms <+: ns → SendsExactly queue vector ms) ↔
      CutsAll (vector.map Iovec.len) ns := by
  induction ns generalizing vector with
  | nil => exact ⟨fun _ => trivial, fun _ ms hne hms => absurd (List.prefix_nil.mp hms) hne⟩
  | cons n ns ih =>
    obtain ⟨⟨hpos, hle, hint, hssize⟩, hns⟩ := hns
    have hlength := length_gather hin
    have hsize : ∀ v ∈ vector, v.len < 2 ^ 63 := by
      intro v hv
      have hpart : v.len ≤ (vector.map Iovec.len).sum :=
        List.le_sum_of_mem (List.mem_map_of_mem hv)
      omega
    by_cases hcuts : Cuts (vector.map Iovec.len) n
    · obtain ⟨hleft, hin', hlens, hgather⟩ :=
        writeVec_of_cuts hin hsize hint (hlength ▸ hle) hcuts
      have hwrite : writeVec vector n = ((writeVec vector n).1, 0) := Prod.ext rfl hleft
      have hns' : WritesAll (gather queue (writeVec vector n).1).length ns := by
        rw [hgather, List.length_drop]
        exact hns
      have hrest := ih hin' hns'
      rw [hlens] at hrest
      rw [CutsAll, and_iff_right hcuts, ← hrest]
      constructor
      · intro hall ms hne hms
        exact (sendsExactly_cons hwrite hgather hle).mp
          (hall (n :: ms) (List.cons_ne_nil n ms) (List.cons_prefix_cons.mpr ⟨rfl, hms⟩))
      · intro hall ms hne hms
        obtain ⟨m, ms, rfl⟩ := List.exists_cons_of_ne_nil hne
        obtain ⟨rfl, htail⟩ := List.cons_prefix_cons.mp hms
        by_cases hnil : ms = []
        · subst hnil
          refine ⟨(writeVec vector m).1, ?_, ?_, ?_⟩
          · rw [sendTurns, hwrite]
            simp [sendTurns]
          · rw [hgather, List.sum_singleton]
          · rw [← List.map_eq_nil_iff (f := Iovec.len), hlens, cut_eq_nil_iff, hlength,
              List.sum_singleton]
        · exact (sendsExactly_cons hwrite hgather hle).mpr (hall ms hnil htail)
    · refine ⟨fun hall => ?_, fun h => absurd h.1 hcuts⟩
      obtain ⟨left, hsend, -⟩ :=
        hall [n] (List.cons_ne_nil n []) (List.cons_prefix_cons.mpr ⟨rfl, List.nil_prefix⟩)
      have hleft := writeVec_of_not_cuts hin hsize hint hcuts
      simp only [sendTurns, if_pos hleft] at hsend
      cases hsend

theorem sendsExactly_short :
    SendsExactly [] [Iovec.ofMemory [1, 2], Iovec.ofMemory [], Iovec.ofMemory [3]] [1, 2] :=
  (sendsExactly_iff
    (show ∀ v ∈ [Iovec.ofMemory [1, 2], Iovec.ofMemory [], Iovec.ofMemory [3]], v.Inside [] by
      intro v hv
      simp only [List.mem_cons, List.not_mem_nil, or_false] at hv
      rcases hv with rfl | rfl | rfl <;> exact ⟨by decide, by decide⟩)
    (show WritesAll 3 [1, 2] from
      ⟨⟨by decide, by decide, by decide, by decide⟩, ⟨by decide, by decide, by decide, by decide⟩,
        trivial⟩)).mpr
    ⟨cuts_of_short (by decide), cuts_of_short (by decide), trivial⟩ [1, 2] (by decide)
    (List.prefix_refl _)

/-- A part whose length, as an `int`, is negative is not cut correctly by any write that ends in
it. -/
theorem not_sendsExactly_of_length {bytes : List UInt8} (hlen : bytes.length = 2 ^ 31) :
    WritesAll (gather queue [Iovec.ofMemory bytes]).length [1] ∧
      ¬ SendsExactly queue [Iovec.ofMemory bytes] [1] := by
  have hlength : (gather queue [Iovec.ofMemory bytes]).length = 2 ^ 31 := by
    rw [gather_cons, bytes_ofMemory, gather_nil, List.append_nil, hlen]
  have hin : ∀ v ∈ [Iovec.ofMemory bytes], v.Inside queue := by
    intro v hv
    obtain rfl := List.mem_singleton.mp hv
    exact ⟨Int.le_refl 0, by simp [Iovec.ofMemory, Iovec.memory]⟩
  have hsize : ∀ v ∈ [Iovec.ofMemory bytes], v.len < 2 ^ 63 := by
    intro v hv
    obtain rfl := List.mem_singleton.mp hv
    show bytes.length < 2 ^ 63
    omega
  have hcuts : ¬ Cuts ([Iovec.ofMemory bytes].map Iovec.len) 1 := by
    show ¬ if bytes.length ≤ 1 then Cuts [] _ else ((1 : ℕ) : ℤ) ≤ toCInt bytes.length
    rw [hlen, if_neg (by decide)]
    decide
  refine ⟨⟨⟨by omega, by omega, by omega, by omega⟩, trivial⟩, ?_⟩
  rintro ⟨left, hsend, -⟩
  have hleft := writeVec_of_not_cuts hin hsize (by omega) hcuts
  simp only [sendTurns, if_pos hleft] at hsend
  cases hsend

end writeVec

/-- One part of `2 ^ 31` bytes, one byte of which is written. -/
theorem not_sendsExactly_long : ∃ vector : List Iovec, (∀ v ∈ vector, v.Inside []) ∧
    WritesAll (gather [] vector).length [1] ∧ ¬ SendsExactly [] vector [1] := by
  obtain ⟨bytes, hlen⟩ : ∃ bytes : List UInt8, bytes.length = 2 ^ 31 :=
    ⟨_, List.length_replicate (a := 0)⟩
  refine ⟨[Iovec.ofMemory bytes], fun v hv => ?_, not_sendsExactly_of_length hlen⟩
  obtain rfl := List.mem_singleton.mp hv
  exact ⟨Int.le_refl 0, by simp [Iovec.ofMemory, Iovec.memory]⟩

end Xcb
