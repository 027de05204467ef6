import Xcb.RequestHelper

/-!
# What a request function promises `xcb_send_request`

A request function counts its list parameters in one loop, for the size of `xcb_parts` and the
`count` of the request, and fills in the entries in another. In front of the entries it leaves two
free. `xcb_send_request` steps back into the array when it has prefix words to send, and
`write_block` steps back once more when it puts the output queue in front of the rest.

## Main definitions

* `prefixEntries`, `writeEntries` — the two functions, as far as they move about in the array
* `Request.Prepared` — what the vector is promised to be
* `Request.sendCall` — the call of `xcb_send_request`

## Main results

* `Request.prepared` — every request function keeps its promise
* `writeEntries_eq_some` — no step leaves the array
-/

namespace Xcb.CClient

/-! ### Stepping through the array -/

/-- What an entry of the array points to, once `xcb_send_request` has it. -/
inductive SlotBase
  | unset
  | caller (p : Pointer)
  | words (skip : Bool)
  | queue
  deriving DecidableEq, Repr

/-- An entry of the array: `iov_base` is `offset` bytes after `base`. -/
structure Slot where
  base : SlotBase
  offset : ℕ
  len : BitVec 64
  deriving DecidableEq, Repr

/-- `--vector`; there is nothing before the first entry of the array. -/
def stepBack : ℕ → Option ℕ
  | 0 => none
  | i + 1 => some i

/-- `vector[i] = slot`, inside the array. -/
def store (parts : List Slot) (i : ℕ) (slot : Slot) : Option (List Slot) :=
  if i < parts.length then some (parts.set i slot) else none

/-- `xcb_send_request`, when the request has a number: `prefix[0]` is set for a `sync`, `prefix[2]`
for a `big` request, whose first word moves to the prefix. -/
def prefixEntries (parts : List Slot) (vector veclen : ℕ) (sync big : Bool) :
    Option (List Slot × ℕ × ℕ) :=
  if sync || big then do
    let vector ← stepBack vector
    let parts ←
      if big then do
        let slot ← parts[vector + 1]?
        store parts (vector + 1) { slot with offset := slot.offset + 4, len := slot.len - 4 }
      else some parts
    let words := (if sync then 1 else 0) + (if big then 2 else 0)
    let parts ← store parts vector ⟨.words (!sync), 0, 4 * words⟩
    return (parts, vector, veclen + 1)
  else return (parts, vector, veclen)

/-- `write_block`: the vector it leaves, with how many entries `_xcb_out_send` gets, and the fill of
the queue. -/
def writeEntries (capacity : BitVec 64) :
    ℕ → List Slot → ℕ → BitVec 64 → Option (List Slot × ℕ × ℕ × BitVec 64)
  | 0, parts, vector, queueLen => some (parts, vector, 0, queueLen)
  | count + 1, parts, vector, queueLen => do
    let slot ← parts[vector]?
    if queueLen + slot.len ≤ capacity then
      let parts ← store parts vector
        { slot with offset := slot.offset + slot.len.toNat, len := 0 }
      writeEntries capacity count parts (vector + 1) (queueLen + slot.len)
    else
      let vector ← stepBack vector
      let parts ← store parts vector ⟨.queue, 0, queueLen⟩
      return (parts, vector, count + 2, 0)

theorem store_eq_some {parts : List Slot} {i : ℕ} (h : i < parts.length) (slot : Slot) :
    store parts i slot = some (parts.set i slot) := if_pos h

/-- The prefix takes one entry at most. -/
theorem prefixEntries_eq_some (parts : List Slot) (vector veclen : ℕ) (sync big : Bool)
    (hpos : 0 < vector) (hlt : vector < parts.length) :
    ∃ parts' vector' veclen', prefixEntries parts vector veclen sync big =
        some (parts', vector', veclen') ∧ parts'.length = parts.length ∧
      vector ≤ vector' + 1 ∧ vector' + veclen' = vector + veclen := by
  obtain ⟨i, rfl⟩ := Nat.exists_eq_succ_of_ne_zero hpos.ne'
  rw [Nat.succ_eq_add_one] at hlt ⊢
  unfold prefixEntries
  cases hprefix : sync || big with
  | false => exact ⟨parts, i + 1, veclen, rfl, rfl, by omega, rfl⟩
  | true =>
    cases big with
    | false =>
      simp only [if_true, stepBack, Option.bind_eq_bind, Option.bind_some, Bool.false_eq_true,
        if_false, store_eq_some (show i < parts.length by omega)]
      exact ⟨_, i, veclen + 1, rfl, List.length_set, le_rfl, by omega⟩
    | true =>
      have hi : i < (parts.set (i + 1) { parts[i + 1] with
          offset := parts[i + 1].offset + 4, len := parts[i + 1].len - 4 }).length := by
        rw [List.length_set]
        omega
      simp only [if_true, stepBack, Option.bind_eq_bind, Option.bind_some,
        List.getElem?_eq_getElem hlt, store_eq_some hlt, store_eq_some hi]
      exact ⟨_, i, veclen + 1, rfl, by rw [List.length_set, List.length_set], le_rfl, by omega⟩

/-- **No step leaves the array**: with an entry before the vector, `write_block` finds all of its
entries, and one to put the queue in. -/
theorem writeEntries_eq_some (capacity : BitVec 64) (count : ℕ) (parts : List Slot) (vector : ℕ)
    (queueLen : BitVec 64) (hpos : 0 < vector) (hend : vector + count = parts.length) :
    ∃ parts' vector' count' queueLen', writeEntries capacity count parts vector queueLen =
        some (parts', vector', count', queueLen') ∧
      vector' + count' = parts.length ∧ parts'.length = parts.length := by
  induction count generalizing parts vector queueLen with
  | zero => exact ⟨parts, vector, 0, queueLen, rfl, hend, rfl⟩
  | succ count ih =>
    have hlt : vector < parts.length := by omega
    unfold writeEntries
    simp only [List.getElem?_eq_getElem hlt, Option.bind_eq_bind, Option.bind_some]
    split
    · -- the part fits into the queue
      rw [store_eq_some hlt, Option.bind_some]
      obtain ⟨parts', vector', count', queueLen', h, hend', hlength⟩ :=
        @ih (parts.set vector { parts[vector] with
            offset := parts[vector].offset + parts[vector].len.toNat, len := 0 })
          (vector + 1) (queueLen + parts[vector].len) vector.succ_pos
          (by rw [List.length_set]; omega)
      rw [List.length_set] at hend' hlength
      exact ⟨parts', vector', count', queueLen', h, hend', hlength⟩
    · -- it does not: one step back
      obtain ⟨i, rfl⟩ := Nat.exists_eq_succ_of_ne_zero hpos.ne'
      simp only [stepBack, Option.bind_some,
        store_eq_some (show i < parts.length by omega)]
      exact ⟨_, i, count + 2, 0, rfl, by omega, List.length_set⟩

/-- The entries that `_xcb_out_send` gets are those of the model of `write_block` on lists. -/
theorem writeEntries_eq_writeBlock {vector : List (List UInt8)} {o : XcbOut} {parts : List Slot}
    {i : ℕ} (hpos : 0 < i)
    (hlens : (parts.drop i).map (·.len) = vector.map fun part => BitVec.ofNat 64 part.length)
    (hsmall : ∀ part ∈ vector, o.queue.length + part.length < 2 ^ 64)
    (hqueue : o.queueLen ≤ o.queue.length) :
    ∃ parts' i', writeEntries (BitVec.ofNat 64 o.queue.length) vector.length parts i
        (BitVec.ofNat 64 o.queueLen) =
      some (parts', i', (o.writeBlock vector).2.length,
        BitVec.ofNat 64 (o.writeBlock vector).1.queueLen) := by
  induction vector generalizing o parts i with
  | nil => exact ⟨parts, i, rfl⟩
  | cons part vector ih =>
    have hlt : i < parts.length := by
      by_contra hge
      rw [List.drop_eq_nil_of_le (by omega)] at hlens
      cases hlens
    rw [List.drop_eq_getElem_cons hlt, List.map_cons, List.map_cons, List.cons.injEq] at hlens
    obtain ⟨hlen, hlens⟩ := hlens
    have hpart := hsmall part List.mem_cons_self
    have hfits : BitVec.ofNat 64 o.queueLen + parts[i].len ≤ BitVec.ofNat 64 o.queue.length ↔
        o.queueLen + part.length ≤ o.queue.length := by
      rw [hlen, ← BitVec.ofNat_add, BitVec.le_def, BitVec.toNat_ofNat, BitVec.toNat_ofNat,
        Nat.mod_eq_of_lt (by omega), Nat.mod_eq_of_lt (by omega)]
    rw [List.length_cons]
    unfold writeEntries
    simp only [List.getElem?_eq_getElem hlt, Option.bind_eq_bind, Option.bind_some, hfits]
    rw [XcbOut.writeBlock]
    split
    · next hle =>
      have hcapacity : (o.append part).queue.length = o.queue.length := by
        simp only [XcbOut.append, List.length_append, List.length_take, List.length_drop]
        omega
      rw [store_eq_some hlt, Option.bind_some, hlen, ← BitVec.ofNat_add, ← hcapacity]
      refine ih i.succ_pos ?_ ?_ ?_
      · rw [List.drop_set_of_lt i.lt_succ_self]
        exact hlens
      · intro other hother
        rw [hcapacity]
        exact hsmall other (List.mem_cons_of_mem _ hother)
      · rw [hcapacity]
        exact hle
    · obtain ⟨j, rfl⟩ := Nat.exists_eq_succ_of_ne_zero hpos.ne'
      simp only [stepBack, Option.bind_some, store_eq_some (show j < parts.length by omega)]
      refine ⟨parts.set j ⟨.queue, 0, BitVec.ofNat 64 o.queueLen⟩, j, ?_⟩
      rw [List.length_cons, List.length_map, List.length_cons]
      rfl

/-! ### Each entry once -/

/-- The entry whose `iov_base` a statement sets. -/
def Statement.baseIndex : Statement → Option ℕ
  | .iovBase i _ => some i
  | _ => none

/-- The entry whose `iov_len` a statement sets. -/
def Statement.lenIndex : Statement → Option ℕ
  | .iovLenOut i => some i
  | .iovLenList i _ _ => some i
  | .iovLenPad i _ => some i
  | _ => none

namespace Request

variable {r : Request} {args : Arguments} {stack : String → List UInt8}

/-- Whether it is the base or the length: one entry after the other is set, for each list two. -/
theorem filterMap_emit (r : Request) {index : Statement → Option ℕ}
    (hassignment : ∀ f : Field, f.assignment.filterMap index = [])
    (hstruct : [Statement.iovBase 2 .out, .iovLenOut 2, .iovBase 3 .null,
      .iovLenPad 3 2].filterMap index = [2, 3])
    (hlist : ∀ i name count member, [Statement.iovBase i (.param name),
      .iovLenList i count member, .iovBase (i + 1) .null, .iovLenPad (i + 1) i].filterMap index =
        [i, i + 1]) :
    r.emit.filterMap index = List.range' 2 r.count := by
  have hlists : ∀ (fields : List Field) (i : ℕ), (listEntries i fields).filterMap index =
      List.range' i (2 * (fields.filter fun f => !f.type.fixedSize).length) := by
    intro fields
    induction fields with
    | nil => exact fun i => rfl
    | cons field fields ih =>
      intro i
      cases hfixed : field.type.fixedSize with
      | true =>
        rw [listEntries_cons_of_fixedSize hfixed, List.filter_cons_of_neg (by simp [hfixed]), ih]
      | false =>
        obtain ⟨member, e, htype⟩ := exists_list_of_not_fixedSize hfixed
        rw [List.filter_cons_of_pos (by simp [hfixed]), List.length_cons,
          show 2 * (_ + 1) = 2 * _ + 1 + 1 from rfl, List.range'_succ, List.range'_succ]
        simp only [listEntries, htype]
        rw [List.filterMap_append, hlist, ih]
        rfl
  have hassignments : (r.wireFields.flatMap Field.assignment).filterMap index = [] := by
    rw [List.filterMap_flatMap]
    simp only [hassignment]
    exact List.flatMap_eq_nil_iff.mpr fun _ _ => rfl
  rw [emit, List.filterMap_append, List.filterMap_append, hassignments, hstruct, hlists, count_eq,
    Nat.add_comm, List.range'_succ, List.range'_succ]
  rfl

theorem baseIndex_assignment (f : Field) : f.assignment.filterMap Statement.baseIndex = [] := by
  unfold Field.assignment
  split <;> first | rfl | (split <;> rfl)

theorem lenIndex_assignment (f : Field) : f.assignment.filterMap Statement.lenIndex = [] := by
  unfold Field.assignment
  split <;> first | rfl | (split <;> rfl)

/-! ### Lengths -/

theorem toNat_padding_le (n : BitVec 64) : (padding n).toNat ≤ 3 := by
  rw [toNat_padding]
  omega

/-- The padding fills up to a multiple of four. -/
theorem four_dvd_add_padding (n : BitVec 64) : 4 ∣ n.toNat + (padding n).toNat := by
  rw [toNat_padding]
  omega

theorem take_listsOf (fields : List Field) (k : ℕ) :
    (r.listsOf args fields).take (2 * k) = r.listsOf args (fields.take k) := by
  induction fields generalizing k with
  | nil => simp only [listsOf, List.flatMap_nil, List.take_nil]
  | cons field fields ih =>
    cases k with
    | zero => rfl
    | succ k => exact congrArg (_ :: _ :: ·) (ih k)

theorem getElem?_listsOf {fields : List Field} {k : ℕ} (hk : k < fields.length) :
    (r.listsOf args fields)[2 * k]? = some ⟨.param fields[k].name, r.listLen args fields[k]⟩ := by
  induction fields generalizing k with
  | nil => cases hk
  | cons field fields ih =>
    cases k with
    | zero => rfl
    | succ k => exact ih (Nat.lt_of_succ_lt_succ hk)

theorem four_dvd_listsOf (fields : List Field) :
    4 ∣ ((r.listsOf args fields).map (·.len.toNat)).sum := by
  induction fields with
  | nil => exact dvd_zero 4
  | cons field fields ih =>
    have hsum : ((r.listsOf args (field :: fields)).map (·.len.toNat)).sum =
        (r.listLen args field).toNat + (padding (r.listLen args field)).toNat +
          ((r.listsOf args fields).map (·.len.toNat)).sum := by
      rw [add_assoc]
      rfl
    rw [hsum]
    exact Nat.dvd_add (four_dvd_add_padding _) ih

/-- The whole vector is padded. -/
theorem four_dvd_entries (r : Request) (args : Arguments) (stack : String → List UInt8) :
    4 ∣ ((r.entries args stack).map (·.len.toNat)).sum := by
  rw [entries_eq, List.map_cons, List.map_cons, List.sum_cons, List.sum_cons, ← add_assoc]
  exact Nat.dvd_add (four_dvd_add_padding _) (four_dvd_listsOf _)

end Request

/-! ### The promise -/

/-- A null pointer, by the function or by its caller. -/
def Arguments.IsNullBase (args : Arguments) : Pointer → Prop
  | .null => True
  | .param name => args.isNull name = true
  | .out => False

namespace Request

variable {r : Request} {args : Arguments} {stack : String → List UInt8}

/-- A null pointer stands for no more than `pad` has. -/
theorem len_le_of_isNullBase
    (hnull : ∀ field ∈ r.listParams, args.isNull field.name = true → r.listLen args field = 0)
    {e : Entry} (he : e ∈ r.entries args stack) (hbase : args.IsNullBase e.base) :
    e.len.toNat ≤ 3 := by
  rw [entries_eq, List.mem_cons, List.mem_cons] at he
  rcases he with rfl | rfl | he
  · cases hbase
  · exact toNat_padding_le _
  · obtain ⟨field, hfield, he⟩ := List.mem_flatMap.mp he
    rw [List.mem_pair] at he
    rcases he with rfl | rfl
    · rw [hnull field hfield hbase]
      exact Nat.zero_le _
    · exact toNat_padding_le _

/-- The array at the call of `xcb_send_request`. -/
def slots (r : Request) (args : Arguments) (stack : String → List UInt8) : List Slot :=
  [⟨.unset, 0, 0⟩, ⟨.unset, 0, 0⟩] ++
    (r.entries args stack).map fun e => ⟨.caller e.base, 0, e.len⟩

/-- What `xcb_send_request` and `write_block` need of the vector. -/
structure Prepared (r : Request) (args : Arguments) (stack : String → List UInt8) : Prop where
  /-- Each entry is set once, and none outside the array. -/
  bases : r.emit.filterMap Statement.baseIndex = List.range' 2 r.count
  lens : r.emit.filterMap Statement.lenIndex = List.range' 2 r.count
  inside : ∀ i ∈ List.range' 2 r.count, i < r.arraySize
  /-- The first one is a struct with room for the header. -/
  header : ∃ len, (r.entries args stack).head? = some ⟨.out, len⟩ ∧ 4 ≤ len
  /-- `pad` has three bytes. -/
  null_le : ∀ e ∈ r.entries args stack, args.IsNullBase e.base → e.len.toNat ≤ 3
  aligned : 4 ∣ ((r.entries args stack).map (·.len.toNat)).sum
  /-- Each list has its entry, and begins at a multiple of four. -/
  starts : ∀ (k : ℕ) (hk : k < r.listParams.length),
    (r.entries args stack)[2 + 2 * k]? =
        some ⟨.param r.listParams[k].name, r.listLen args r.listParams[k]⟩ ∧
      4 ∣ (((r.entries args stack).take (2 + 2 * k)).map (·.len.toNat)).sum
  /-- Whatever prefix there is, and however full the queue: no step leaves the array. -/
  steps : ∀ (sync big : Bool) (capacity queueLen : BitVec 64),
    ∃ parts vector veclen, prefixEntries (r.slots args stack) 2 r.count sync big =
        some (parts, vector, veclen) ∧
      writeEntries capacity veclen parts vector queueLen ≠ none

/-- **Every generated request meets the sender's preconditions**, if its struct has room for the
header and a null pointer is only passed for an empty list. -/
theorem prepared (r : Request) (args : Arguments) (stack : String → List UInt8)
    (hheader : 4 ≤ r.sizeofOut)
    (hnull : ∀ field ∈ r.listParams, args.isNull field.name = true → r.listLen args field = 0) :
    r.Prepared args stack where
  bases := filterMap_emit r baseIndex_assignment rfl fun _ _ _ _ => rfl
  lens := filterMap_emit r lenIndex_assignment rfl fun _ _ _ _ => rfl
  inside := by
    intro i hi
    rw [List.mem_range'_1] at hi
    rw [arraySize]
    omega
  header := ⟨r.sizeofOut, by rw [entries_eq]; rfl, hheader⟩
  null_le := fun _ he hbase => len_le_of_isNullBase hnull he hbase
  aligned := four_dvd_entries r args stack
  starts := by
    intro k hk
    rw [entries_eq, Nat.add_comm 2, List.getElem?_cons_succ, List.getElem?_cons_succ,
      List.take_succ_cons, List.take_succ_cons, take_listsOf, List.map_cons, List.map_cons,
      List.sum_cons, List.sum_cons, ← add_assoc]
    exact ⟨getElem?_listsOf hk, Nat.dvd_add (four_dvd_add_padding _) (four_dvd_listsOf _)⟩
  steps := by
    intro sync big capacity queueLen
    have hlength : (r.slots args stack).length = 2 + r.count := by
      rw [slots, List.length_append, List.length_map, entries, List.length_map, List.length_range']
      rfl
    obtain ⟨parts, vector, veclen, hprefix, hparts, hvector, hend⟩ :=
      prefixEntries_eq_some (r.slots args stack) 2 r.count sync big two_pos
        (by rw [hlength, count_eq]; omega)
    obtain ⟨parts', vector', count', queueLen', hwrite, -⟩ :=
      writeEntries_eq_some capacity veclen parts vector queueLen
        (by omega) (by rw [hparts, hlength, hend])
    exact ⟨parts, vector, veclen, hprefix, by rw [hwrite]; exact Option.some_ne_none _⟩

/-- `InternAtom` of a name of three bytes. -/
theorem prepared_internAtom : internAtom.Prepared (internAtomCall [65, 66, 67]) fun _ => [] :=
  prepared internAtom _ _ (by decide) fun _ _ h => nomatch h

end Request

end Xcb.CClient
