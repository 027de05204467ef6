import Xcb.Out

/-!
# The bytes of the output stream

What `write_block` and `_xcb_out_flush_to` do to the order of bytes: a queue and the vector behind
it, read one after the other, are what was put in.

## Main definitions

* `Iovec.Sane` — a part whose bytes are there and can be counted

## Main results

* `gather_writeBlock` — the vector left for the socket, followed by the queue, is the old queue
  followed by the request
* `flatten_vector` — the bytes of a request with its prefix words
-/

namespace Xcb

/-! ### The queue -/

/-- The bytes that wait in the queue. -/
def XcbOut.queued (o : XcbOut) : List UInt8 := o.queue.take o.queueLen

/-- The queue is never filled beyond its size. -/
def XcbOut.Fits (o : XcbOut) : Prop := o.queueLen ≤ o.queue.length

@[simp] theorem gather_nil (queue : List UInt8) : gather queue [] = [] := rfl

@[simp] theorem gather_cons (queue : List UInt8) (v : Iovec) (vector : List Iovec) :
    gather queue (v :: vector) = v.bytes queue ++ gather queue vector := rfl

@[simp] theorem bytes_ofMemory (queue bytes : List UInt8) :
    (Iovec.ofMemory bytes).bytes queue = bytes := by
  simp [Iovec.ofMemory, Iovec.bytes]

theorem gather_ofMemory (queue : List UInt8) (parts : List (List UInt8)) :
    gather queue (parts.map Iovec.ofMemory) = parts.flatten := by
  induction parts with
  | nil => rfl
  | cons part parts ih => rw [List.map_cons, gather_cons, bytes_ofMemory, ih, List.flatten_cons]

/-- The vector that stands for the whole queue. -/
theorem bytes_queue (queue : List UInt8) (len : ℕ) :
    (Iovec.mk .queue 0 len).bytes queue = queue.take len := rfl

section append

variable {o : XcbOut} {bytes : List UInt8}

theorem length_queue_append (h : o.queueLen + bytes.length ≤ o.queue.length) :
    (o.append bytes).queue.length = o.queue.length := by
  simp only [XcbOut.append, List.length_append, List.length_take, List.length_drop]
  omega

theorem queued_append (h : o.queueLen + bytes.length ≤ o.queue.length) :
    (o.append bytes).queued = o.queued ++ bytes := by
  have hlen : (o.queued ++ bytes).length = o.queueLen + bytes.length := by
    simp only [XcbOut.queued, List.length_append, List.length_take]
    omega
  change ((o.queued ++ bytes) ++ _).take (o.queueLen + bytes.length) = _
  rw [← hlen, List.take_left']
  rfl

end append

/-! ### `write_block` -/

theorem length_queue_writeBlock (o : XcbOut) (parts : List (List UInt8)) :
    (o.writeBlock parts).1.queue.length = o.queue.length := by
  induction parts generalizing o with
  | nil => rfl
  | cons part parts ih =>
    simp only [XcbOut.writeBlock]
    split
    · next h => rw [ih, length_queue_append h]
    · rfl

/-- Nothing but the queue changes. -/
theorem out_writeBlock_eq (o : XcbOut) (parts : List (List UInt8)) :
    ∃ queue queueLen, (o.writeBlock parts).1 = { o with queue := queue, queueLen := queueLen } := by
  induction parts generalizing o with
  | nil => exact ⟨o.queue, o.queueLen, rfl⟩
  | cons part parts ih =>
    simp only [XcbOut.writeBlock]
    split
    · obtain ⟨queue, queueLen, h⟩ := ih (o.append part)
      exact ⟨queue, queueLen, h⟩
    · exact ⟨o.queue, 0, rfl⟩

theorem fits_writeBlock {o : XcbOut} (h : o.Fits) (parts : List (List UInt8)) :
    (o.writeBlock parts).1.Fits := by
  induction parts generalizing o with
  | nil => exact h
  | cons part parts ih =>
    simp only [XcbOut.writeBlock]
    split
    · next hroom =>
      refine ih ?_
      rw [XcbOut.Fits, length_queue_append hroom]
      exact hroom
    · exact Nat.zero_le _

/-- What does not fit empties the queue into the vector. -/
theorem queueLen_writeBlock {o : XcbOut} {parts : List (List UInt8)}
    (h : (o.writeBlock parts).2 ≠ []) : (o.writeBlock parts).1.queueLen = 0 := by
  induction parts generalizing o with
  | nil => exact absurd rfl h
  | cons part parts ih =>
    simp only [XcbOut.writeBlock] at h ⊢
    split
    · next hroom =>
      rw [if_pos hroom] at h
      exact ih h
    · rfl

/-- **`write_block` keeps the order of bytes.** -/
theorem gather_writeBlock (o : XcbOut) (parts : List (List UInt8)) :
    gather (o.writeBlock parts).1.queue (o.writeBlock parts).2 ++ (o.writeBlock parts).1.queued =
      o.queued ++ parts.flatten := by
  induction parts generalizing o with
  | nil => simp [XcbOut.writeBlock]
  | cons part parts ih =>
    simp only [XcbOut.writeBlock]
    split
    · next hroom => rw [ih, queued_append hroom, List.flatten_cons, List.append_assoc]
    · rw [gather_cons, bytes_queue, gather_ofMemory]
      simp [XcbOut.queued]

/-- What fits takes its room in the queue. -/
theorem queueLen_writeBlock_of_nil {o : XcbOut} {parts : List (List UInt8)}
    (h : (o.writeBlock parts).2 = []) :
    (o.writeBlock parts).1.queueLen = o.queueLen + parts.flatten.length := by
  induction parts generalizing o with
  | nil => simp [XcbOut.writeBlock]
  | cons part parts ih =>
    simp only [XcbOut.writeBlock] at h ⊢
    split
    · next hroom =>
      rw [if_pos hroom] at h
      rw [ih h, List.flatten_cons, List.length_append, ← Nat.add_assoc]
      rfl
    · next hfull =>
      rw [if_neg hfull] at h
      exact absurd h (List.cons_ne_nil _ _)

/-- When everything fits, the request is behind the queue. -/
theorem queued_writeBlock_of_nil {o : XcbOut} {parts : List (List UInt8)}
    (h : (o.writeBlock parts).2 = []) :
    (o.writeBlock parts).1.queued = o.queued ++ parts.flatten := by
  simpa [h] using gather_writeBlock o parts

/-- When something does not, all of it is in the vector. -/
theorem gather_writeBlock_of_ne_nil {o : XcbOut} {parts : List (List UInt8)}
    (h : (o.writeBlock parts).2 ≠ []) :
    gather (o.writeBlock parts).1.queue (o.writeBlock parts).2 = o.queued ++ parts.flatten := by
  simpa [XcbOut.queued, queueLen_writeBlock h] using gather_writeBlock o parts

/-! ### Prefix words -/

/-- **The bytes of a request on their way**: the `GetInputFocus`, if there is one, and the
request's encoding. -/
theorem flatten_vector (req : PreparedRequest) (sync : Bool) :
    (req.vector sync).flatten = (if sync then syncReq else []) ++ req.encoding := by
  unfold PreparedRequest.vector PreparedRequest.encoding
  by_cases hbig : req.bigLength ≠ 0
  · rw [if_pos hbig, if_pos hbig]
    have hlen := req.header_le hbig
    cases hparts : req.parts with
    | nil => simp [hparts] at hlen
    | cons part parts =>
      rw [hparts, List.headD_cons] at hlen
      simp [List.take_append_of_le_length hlen, List.drop_append_of_le_length hlen]
  · rw [if_neg hbig, if_neg hbig]
    cases sync <;> simp

/-! ### Partial writes -/

/-- The memory an `iov_base` points into. -/
def Iovec.memory (queue : List UInt8) (v : Iovec) : List UInt8 :=
  match v.base with
  | .queue => queue
  | .memory bytes => bytes

/-- The bytes are there, and an `int` can count them. -/
structure Iovec.Sane (queue : List UInt8) (v : Iovec) : Prop where
  offset : 0 ≤ v.offset
  bound : v.offset.toNat + v.len ≤ (v.memory queue).length
  short : v.len < 2 ^ 31

theorem Iovec.bytes_eq (queue : List UInt8) (v : Iovec) :
    v.bytes queue = ((v.memory queue).drop v.offset.toNat).take v.len := by
  unfold Iovec.bytes Iovec.memory
  cases v.base <;> rfl

section writeVec

variable {queue : List UInt8} {n : ℕ}

theorem sane_ofMemory {bytes : List UInt8} (h : bytes.length < 2 ^ 31) :
    (Iovec.ofMemory bytes).Sane queue :=
  ⟨Int.le_refl 0, by simp [Iovec.ofMemory, Iovec.memory], h⟩

theorem sane_queue {len : ℕ} (hlen : len ≤ queue.length) (hqueue : queue.length < 2 ^ 31) :
    (Iovec.mk .queue 0 len).Sane queue :=
  ⟨Int.le_refl 0, by simpa [Iovec.memory] using hlen, Nat.lt_of_le_of_lt hlen hqueue⟩

/-- The vector that is left for `_xcb_out_send`. -/
theorem sane_writeBlock {o : XcbOut} (hfits : o.Fits) (hqueue : o.queue.length < 2 ^ 31)
    {parts : List (List UInt8)} (hparts : ∀ part ∈ parts, part.length < 2 ^ 31) :
    ∀ v ∈ (o.writeBlock parts).2, v.Sane (o.writeBlock parts).1.queue := by
  induction parts generalizing o with
  | nil => exact nofun
  | cons part parts ih =>
    simp only [XcbOut.writeBlock]
    split
    · next hroom =>
      have hlength := length_queue_append hroom
      refine ih ?_ (hlength.trans_lt hqueue) fun p hp => hparts p (List.mem_cons_of_mem _ hp)
      rw [XcbOut.Fits, hlength]
      exact hroom
    · intro v hv
      rcases List.mem_cons.mp hv with rfl | hv
      · exact sane_queue hfits hqueue
      · obtain ⟨p, hp, rfl⟩ := List.mem_map.mp hv
        exact sane_ofMemory (hparts p hp)

/-- The prefix words do not make a part too long. -/
theorem length_lt_of_mem_vector {req : PreparedRequest} {sync : Bool}
    (hparts : ∀ part ∈ req.parts, part.length < 2 ^ 31) :
    ∀ part ∈ req.vector sync, part.length < 2 ^ 31 := by
  intro part hpart
  have hfirst : (if sync then syncReq else []).length ≤ 4 := by cases sync <;> decide
  unfold PreparedRequest.vector at hpart
  dsimp only at hpart
  split at hpart
  · split at hpart
    · next head rest hcons =>
      rw [hcons] at hparts
      have hhead := hparts head List.mem_cons_self
      rcases List.mem_cons.mp hpart with rfl | hpart
      · simp only [List.length_append, List.length_take, bytes32, List.length_cons,
          List.length_nil]
        omega
      · rcases List.mem_cons.mp hpart with rfl | hpart
        · rw [List.length_drop]
          omega
        · exact hparts part (List.mem_cons_of_mem _ hpart)
    · cases hpart
  · split at hpart
    · rcases List.mem_cons.mp hpart with rfl | hpart
      · norm_num [syncReq]
      · exact hparts part hpart
    · exact hparts part hpart

theorem toCInt_of_lt (h : n < 2 ^ 31) : toCInt n = n := by
  rw [toCInt, BitVec.toInt_eq_toNat_of_lt] <;> rw [BitVec.toNat_ofNat, Nat.mod_eq_of_lt] <;> omega

theorem subCInt_of_le {m : ℕ} (hle : m ≤ n) (hlt : n < 2 ^ 31) :
    subCInt n m = ((n - m : ℕ) : ℤ) := by
  rw [subCInt, ← Int.ofNat_sub hle, BitVec.ofInt_natCast]
  exact toCInt_of_lt (by omega)

end writeVec

end Xcb
