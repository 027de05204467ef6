import Xcb.Internal.BitRun
import Xcb.Internal.Transition
import Mathlib.Data.List.Nodup

/-!
# Resource identifiers

The server gives a client a base and a mask, and the client makes its own identifiers from them.
When the ones it started with are used up, it asks the server for a range of others, by XC-MISC.

A call finds a range at its end by comparing `last` with `max - inc + 1`. At the very beginning both
are `0`, and that stands for the range that has not been set up. With `inc = 1` the comparison is
`0 >= 0`, but with a larger increment `0 - inc + 1` is a huge number: the first call steps on
without any range, and no later one finds an end.

## Main definitions

* `XcbXid.generateId` — `xcb_generate_id`
* `Allocation.step` — one call after the other, with what was returned so far
* `Allocation.Sound` — the identifiers are in range and distinct, and the assertion held
* `Setup.span` — how many calls a mask without bit `0` is good for

## Main results

* `Allocation.sound_iff` — the runs in which the allocation is sound
* `Allocation.not_sound_single` — a mask that consists of bit `1`
-/

namespace Xcb

/-! ### `xcb_generate_id` -/

/-- What the connection setup says about identifiers. -/
structure Setup where
  resourceIdBase : BitVec 32
  resourceIdMask : BitVec 32
  deriving DecidableEq, Repr

/-- `struct _xcb_xid`. -/
structure XcbXid where
  last : BitVec 32
  max : BitVec 32
  base : BitVec 32
  inc : BitVec 32
  deriving DecidableEq, Repr

/-- `xcb_xc_misc_get_xid_range_reply_t`. -/
structure GetXidRangeReply where
  startId : BitVec 32
  count : BitVec 32
  deriving DecidableEq, Repr

/-- What a call finds: `c->has_error`, whether the server has XC-MISC, and the reply to a
`GetXIDRange` (`none` if there is an error instead). -/
structure Surroundings where
  hasError : Bool
  extension : Bool
  range : Option GetXidRangeReply
  deriving DecidableEq, Repr

/-- The two assertions of `xcb_generate_id`. -/
inductive Assertion
  | lastIsMax
  | rangeNonempty
  deriving DecidableEq, Repr

/-- How a call ends. -/
inductive Outcome
  | returned (id : BitVec 32)
  | aborted (assertion : Assertion)
  deriving DecidableEq, Repr

namespace XcbXid

/-- The return value that says that there is no identifier. -/
def failure : BitVec 32 := -1

/-- `_xcb_xid_init`. -/
def init (setup : Setup) : XcbXid where
  last := 0
  max := 0
  base := setup.resourceIdBase
  inc := setup.resourceIdMask &&& -setup.resourceIdMask

/-- The end of `xcb_generate_id`. -/
def ret (xid : XcbXid) : XcbXid × Outcome :=
  (xid, .returned (xid.last ||| xid.base))

/-- `xcb_generate_id`. -/
def generateId (xid : XcbXid) (setup : Setup) (call : Surroundings) : XcbXid × Outcome :=
  if call.hasError then (xid, .returned failure)
  else if xid.max - xid.inc + 1 ≤ xid.last then
    if xid.last ≠ xid.max then (xid, .aborted .lastIsMax)
    else if xid.last = 0 then
      ret { xid with max := setup.resourceIdMask }
    else if !call.extension then (xid, .returned failure)
    else match call.range with
      | none => (xid, .returned failure)
      | some range =>
        if range.startId = 0 ∧ range.count = 1 then (xid, .returned failure)
        else if ¬ (0 < range.count ∧ 0 < range.startId) then (xid, .aborted .rangeNonempty)
        else
          ret { xid with
            last := range.startId
            max := range.startId + (range.count - 1) * xid.inc }
  else
    ret { xid with last := xid.last + xid.inc }

end XcbXid

/-! ### Runs of calls -/

/-- A client after some calls: what they returned, the oldest first, how many of them found the
connection in order, and the assertion that stopped the program. -/
structure Allocation where
  xid : XcbXid
  returned : List (BitVec 32)
  inOrder : ℕ
  aborted : Option Assertion

namespace Allocation

def init (setup : Setup) : Allocation where
  xid := XcbXid.init setup
  returned := []
  inOrder := 0
  aborted := none

/-- One call of `xcb_generate_id`. The lock is held during all of it. -/
def step (setup : Setup) (s : Allocation) (call : Surroundings) : Option Allocation :=
  if s.aborted.isSome then none
  else
    let (xid, outcome) := s.xid.generateId setup call
    let inOrder := if call.hasError then s.inOrder else s.inOrder + 1
    match outcome with
    | .returned id => some ⟨xid, s.returned ++ [id], inOrder, none⟩
    | .aborted assertion => some ⟨xid, s.returned, inOrder, some assertion⟩

/-- The identifiers handed out: what was returned, other than the failure value. -/
def handedOut (s : Allocation) : List (BitVec 32) :=
  s.returned.filter (· ≠ XcbXid.failure)

end Allocation

/-! ### What is promised -/

namespace Setup

variable (setup : Setup)

/-- The mask is one run of bits, and the base has none of them. -/
structure Valid : Prop where
  contiguous : ∃ position width, BitRun.IsRun setup.resourceIdMask position width
  disjoint : setup.resourceIdBase &&& setup.resourceIdMask = 0

/-- `id` has the base outside the mask. -/
def InRange (id : BitVec 32) : Prop :=
  id &&& ~~~setup.resourceIdMask = setup.resourceIdBase

/-- The lowest bit of the mask. -/
def increment : BitVec 32 :=
  setup.resourceIdMask &&& -setup.resourceIdMask

/-- The server grants this range to a client that has these identifiers: they are spaced by the
lowest bit of the mask, and each is an identifier of the client that it does not have. -/
def Grants (handedOut : List (BitVec 32)) (range : GetXidRangeReply) : Prop :=
  ∀ k < range.count.toNat, ∃ id : BitVec 32,
    id.toNat = range.startId.toNat + k * setup.increment.toNat ∧
      setup.InRange id ∧ id ∉ handedOut

end Setup

namespace Allocation

/-- A range that comes with a call is granted, unless it says that there are none left. -/
def Granted (setup : Setup) (s : Allocation) (call : Surroundings) : Prop :=
  ∀ range, call.range = some range → ¬ (range.startId = 0 ∧ range.count = 1) →
    setup.Grants s.handedOut range

/-- The identifiers handed out are in range and distinct, and `assert(last == max)` held. -/
structure Sound (setup : Setup) (s : Allocation) : Prop where
  inRange : ∀ id ∈ s.handedOut, setup.InRange id
  unique : s.handedOut.Nodup
  lastIsMax : s.aborted ≠ some .lastIsMax

end Allocation

/-- How many calls a mask without bit `0` is good for. One call for every nonzero part of the mask;
one more if the multiple after the last one has no bit outside the base. If all bits belong to the
base or are the only one of the mask, every other identifier is the failure value. -/
def Setup.span (setup : Setup) : ℕ :=
  if setup.resourceIdBase ||| setup.increment = XcbXid.failure then 3
  else if (setup.resourceIdMask + setup.increment) &&& ~~~setup.resourceIdBase = 0 then
    setup.resourceIdMask.toNat / setup.increment.toNat + 1
  else setup.resourceIdMask.toNat / setup.increment.toNat


/-! ### One call -/

namespace XcbXid

/-- What a call does, by the way it moves on. -/
inductive Moves (setup : Setup) (call : Surroundings) (xid : XcbXid) : XcbXid × Outcome → Prop
  | inError (herror : call.hasError = true) : Moves setup call xid (xid, .returned failure)
  | mismatch (herror : call.hasError = false) (hend : xid.max - xid.inc + 1 ≤ xid.last)
      (hne : xid.last ≠ xid.max) : Moves setup call xid (xid, .aborted .lastIsMax)
  | initial (herror : call.hasError = false) (hend : xid.max - xid.inc + 1 ≤ xid.last)
      (hmax : xid.last = xid.max) (hzero : xid.last = 0) :
      Moves setup call xid (ret { xid with max := setup.resourceIdMask })
  | refused (herror : call.hasError = false) (hend : xid.max - xid.inc + 1 ≤ xid.last)
      (hmax : xid.last = xid.max) (hzero : xid.last ≠ 0) :
      Moves setup call xid (xid, .returned failure)
  | empty (herror : call.hasError = false) (hend : xid.max - xid.inc + 1 ≤ xid.last)
      (hmax : xid.last = xid.max) (hzero : xid.last ≠ 0) :
      Moves setup call xid (xid, .aborted .rangeNonempty)
  | granted (range : GetXidRangeReply) (herror : call.hasError = false)
      (hend : xid.max - xid.inc + 1 ≤ xid.last) (hmax : xid.last = xid.max)
      (hzero : xid.last ≠ 0) (hrange : call.range = some range)
      (hleft : ¬ (range.startId = 0 ∧ range.count = 1)) (hcount : 0 < range.count)
      (hstart : 0 < range.startId) :
      Moves setup call xid (ret { xid with
        last := range.startId
        max := range.startId + (range.count - 1) * xid.inc })
  | stepped (herror : call.hasError = false) (hend : ¬ xid.max - xid.inc + 1 ≤ xid.last) :
      Moves setup call xid (ret { xid with last := xid.last + xid.inc })

theorem moves_generateId (xid : XcbXid) (setup : Setup) (call : Surroundings) :
    Moves setup call xid (xid.generateId setup call) := by
  rw [generateId]
  cases herror : call.hasError with
  | true =>
    rw [if_pos rfl]
    exact .inError herror
  | false =>
    rw [if_neg Bool.false_ne_true]
    by_cases hend : xid.max - xid.inc + 1 ≤ xid.last
    · rw [if_pos hend]
      by_cases hmax : xid.last = xid.max
      · rw [if_neg (not_not_intro hmax)]
        by_cases hzero : xid.last = 0
        · rw [if_pos hzero]
          exact .initial herror hend hmax hzero
        · rw [if_neg hzero]
          cases hext : call.extension with
          | false => exact .refused herror hend hmax hzero
          | true =>
            cases hrange : call.range with
            | none => exact .refused herror hend hmax hzero
            | some range =>
              by_cases hleft : range.startId = 0 ∧ range.count = 1
              · simp only [Bool.not_true, Bool.false_eq_true, if_false, if_pos hleft]
                exact .refused herror hend hmax hzero
              · by_cases hsome : 0 < range.count ∧ 0 < range.startId
                · simp only [Bool.not_true, Bool.false_eq_true, if_false, if_neg hleft,
                    if_neg (not_not_intro hsome)]
                  exact .granted range herror hend hmax hzero hrange hleft hsome.1 hsome.2
                · simp only [Bool.not_true, Bool.false_eq_true, if_false, if_neg hleft,
                    if_pos hsome]
                  exact .empty herror hend hmax hzero
      · rw [if_pos hmax]
        exact .mismatch herror hend hmax
    · rw [if_neg hend]
      exact .stepped herror hend

end XcbXid

namespace Allocation

variable {setup : Setup} {s t : Allocation} {call : Surroundings}

/-- What an outcome leaves behind. -/
def Records (s t : Allocation) : Outcome → Prop
  | .returned id => t.aborted = none ∧
      t.handedOut = s.handedOut ++ [id].filter (· ≠ XcbXid.failure)
  | .aborted assertion => t.aborted = some assertion ∧ t.handedOut = s.handedOut

/-- A step is a move of the allocator. -/
theorem step_cases (h : s.step setup call = some t) :
    s.aborted = none ∧ (t.inOrder = if call.hasError then s.inOrder else s.inOrder + 1) ∧
      ∃ move, XcbXid.Moves setup call s.xid move ∧ t.xid = move.1 ∧ s.Records t move.2 := by
  have hmoves := XcbXid.moves_generateId s.xid setup call
  rw [step] at h
  cases haborted : s.aborted with
  | some assertion =>
    rw [haborted] at h
    cases h
  | none =>
    rw [haborted] at h
    refine ⟨rfl, ?_⟩
    cases hgenerate : s.xid.generateId setup call with
    | mk xid outcome =>
      rw [hgenerate] at h hmoves
      cases outcome with
      | returned id =>
        cases h
        exact ⟨rfl, _, hmoves, rfl, rfl, List.filter_append ..⟩
      | aborted assertion =>
        cases h
        exact ⟨rfl, _, hmoves, rfl, rfl, rfl⟩

end Allocation

/-! ### Masks with bit `0` -/

/-- The identifiers handed out are sound, and those of the parts `ahead` would be so too. -/
structure Setup.Serves (setup : Setup) (handedOut : List (BitVec 32))
    (ahead : BitVec 32 → Prop) : Prop where
  inRange : ∀ id ∈ handedOut, setup.InRange id
  unique : handedOut.Nodup
  ahead_inRange : ∀ x, ahead x → setup.InRange (x ||| setup.resourceIdBase)
  ahead_fresh : ∀ x, ahead x → x ||| setup.resourceIdBase ∉ handedOut
  ahead_injective : ∀ x y, ahead x → ahead y →
    x ||| setup.resourceIdBase = y ||| setup.resourceIdBase → x = y

namespace Setup.Serves

variable {setup : Setup} {handedOut : List (BitVec 32)} {ahead ahead' : BitVec 32 → Prop}
  {x : BitVec 32}

theorem mono (h : setup.Serves handedOut ahead) (hle : ∀ x, ahead' x → ahead x) :
    setup.Serves handedOut ahead' where
  inRange := h.inRange
  unique := h.unique
  ahead_inRange := fun x hx => h.ahead_inRange x (hle x hx)
  ahead_fresh := fun x hx => h.ahead_fresh x (hle x hx)
  ahead_injective := fun x y hx hy => h.ahead_injective x y (hle x hx) (hle y hy)

/-- Hand out one of the identifiers ahead. -/
theorem hand (h : setup.Serves handedOut ahead) (hx : ahead x) :
    setup.Serves (handedOut ++ [x ||| setup.resourceIdBase].filter (· ≠ XcbXid.failure))
      fun y => ahead y ∧ y ≠ x := by
  have hmem : ∀ id ∈ [x ||| setup.resourceIdBase].filter (· ≠ XcbXid.failure),
      id = x ||| setup.resourceIdBase :=
    fun id hid => List.mem_singleton.mp (List.mem_of_mem_filter hid)
  refine ⟨?_, ?_, fun y hy => h.ahead_inRange y hy.1, ?_, fun y z hy hz =>
    h.ahead_injective y z hy.1 hz.1⟩
  · intro id hid
    rcases List.mem_append.mp hid with hold | hnew
    · exact h.inRange id hold
    · rw [hmem id hnew]
      exact h.ahead_inRange x hx
  · refine List.Nodup.append h.unique ((List.nodup_singleton _).filter _) ?_
    intro id hold hnew
    rw [hmem id hnew] at hold
    exact h.ahead_fresh x hx hold
  · rintro y ⟨hy, hne⟩ hid
    rcases List.mem_append.mp hid with hold | hnew
    · exact h.ahead_fresh y hy hold
    · exact hne (h.ahead_injective y x hy hx (hmem _ hnew))

/-- The current part is handed out, and what is above it stays ahead. -/
theorem advance {xid : XcbXid} (h : setup.Serves handedOut ahead) (hlast : ahead xid.last)
    (hahead : ∀ x, xid.last < x ∧ x ≤ xid.max → ahead x) :
    setup.Serves
      (handedOut ++ [xid.last ||| setup.resourceIdBase].filter (· ≠ XcbXid.failure))
      fun x => xid.last < x ∧ x ≤ xid.max :=
  (h.hand hlast).mono fun x hx => ⟨hahead x hx, fun heq => BitVec.lt_irrefl _ (heq ▸ hx.1)⟩

end Setup.Serves

namespace Allocation

variable {setup : Setup} {s t : Allocation} {call : Surroundings}

/-- A client whose increment is `1`: what is ahead is what is left of the current range. Only at the
very beginning is there no range. -/
structure Counting (setup : Setup) (s : Allocation) : Prop where
  inc : s.xid.inc = 1
  base : s.xid.base = setup.resourceIdBase
  le : s.xid.last ≤ s.xid.max
  start : s.xid.last = s.xid.max → s.xid.last = 0 → s.handedOut = []
  serves : setup.Serves s.handedOut fun x => s.xid.last < x ∧ x ≤ s.xid.max
  lastIsMax : s.aborted ≠ some .lastIsMax

theorem counting_init (hinc : setup.increment = 1) : Counting setup (init setup) where
  inc := hinc
  base := rfl
  le := BitVec.le_refl _
  start := fun _ _ => rfl
  serves := by
    have hnone : ∀ x : BitVec 32, ¬ ((init setup).xid.last < x ∧ x ≤ (init setup).xid.max) := by
      intro x
      change ¬ (0#32 < x ∧ x ≤ 0#32)
      bv_omega
    exact ⟨nofun, List.nodup_nil, fun x hx => absurd hx (hnone x),
      fun x hx => absurd hx (hnone x), fun x _ hx => absurd hx (hnone x)⟩
  lastIsMax := nofun

/-- The comparison, for the increment `1`. -/
theorem end_iff {xid : XcbXid} (hinc : xid.inc = 1) :
    xid.max - xid.inc + 1 ≤ xid.last ↔ xid.max ≤ xid.last := by
  rw [hinc, BitVec.sub_add_cancel]

/-- The parts of the initial range are ahead of a client that has nothing. -/
theorem serves_initial (hvalid : setup.Valid) {width : ℕ}
    (hrun : BitRun.IsRun setup.resourceIdMask 0 width) :
    setup.Serves [] fun x => x ≤ setup.resourceIdMask := by
  have hinside : ∀ x : BitVec 32, x ≤ setup.resourceIdMask →
      x &&& ~~~setup.resourceIdMask = 0 := by
    intro x hx
    have hlt : x.toNat < 2 ^ width := by
      have hle := BitVec.le_def.mp hx
      rw [hrun.toNat_eq, pow_zero, mul_one] at hle
      have := Nat.two_pow_pos width
      omega
    have hmultiple := hrun.multiple_and_not hlt
    rwa [BitVec.ofNat_toNat, BitVec.setWidth_eq, BitVec.twoPow_zero, BitVec.mul_one] at hmultiple
  refine ⟨nofun, List.nodup_nil, ?_, fun x _ => List.not_mem_nil, ?_⟩
  · intro x hx
    exact BitRun.or_and_not (hinside x hx) hvalid.disjoint
  · intro x y hx hy
    exact BitRun.or_injective (hinside x hx) (hinside y hy) hvalid.disjoint

/-- The identifiers of a range granted are ahead of the client. -/
theorem serves_granted {handedOut : List (BitVec 32)} {ahead : BitVec 32 → Prop}
    {range : GetXidRangeReply} {inc : BitVec 32} (hincrement : setup.increment = 1)
    (hinc : inc = 1) (h : setup.Serves handedOut ahead)
    (hgrants : setup.Grants handedOut range) (hcount : 0 < range.count) :
    range.startId ≤ range.startId + (range.count - 1) * inc ∧
      setup.Serves handedOut fun x =>
        range.startId ≤ x ∧ x ≤ range.startId + (range.count - 1) * inc := by
  rw [Setup.Grants, hincrement] at hgrants
  have hone : (1 : BitVec 32).toNat = 1 := rfl
  have hcountNat : 0 < range.count.toNat := BitVec.lt_def.mp hcount
  have hlast : (range.startId + (range.count - 1) * inc).toNat =
      range.startId.toNat + (range.count.toNat - 1) := by
    obtain ⟨id, hid, -⟩ := hgrants (range.count.toNat - 1) (by omega)
    have hlt := id.isLt
    have hsub : (range.count - 1).toNat = range.count.toNat - 1 := by bv_omega
    rw [hid, hone, mul_one] at hlt
    rw [hinc, mul_one (range.count - 1), BitVec.toNat_add, hsub, Nat.mod_eq_of_lt hlt]
  have hgranted : ∀ x, range.startId ≤ x ∧ x ≤ range.startId + (range.count - 1) * inc →
      setup.InRange x ∧ x ∉ handedOut := by
    rintro x ⟨hstart, hend⟩
    rw [BitVec.le_def] at hstart hend
    rw [hlast] at hend
    obtain ⟨id, hid, hrange, hfresh⟩ := hgrants (x.toNat - range.startId.toNat) (by omega)
    have hx : id = x := BitVec.eq_of_toNat_eq (by rw [hid, hone]; omega)
    rw [← hx]
    exact ⟨hrange, hfresh⟩
  have hor : ∀ x, setup.InRange x → x ||| setup.resourceIdBase = x :=
    fun x hx => BitRun.or_of_and_not hx
  refine ⟨by rw [BitVec.le_def, hlast]; omega, h.inRange, h.unique, ?_, ?_, ?_⟩
  · intro x hx
    rw [hor x (hgranted x hx).1]
    exact (hgranted x hx).1
  · intro x hx
    rw [hor x (hgranted x hx).1]
    exact (hgranted x hx).2
  · intro x y hx hy heq
    rwa [hor x (hgranted x hx).1, hor y (hgranted y hy).1] at heq

namespace Counting

/-- A call that hands out the current part of a range, whatever that range is. -/
theorem of_ret (xid : XcbXid) {ahead : BitVec 32 → Prop} (hinc : xid.inc = 1)
    (hbase : xid.base = setup.resourceIdBase) (hserves : setup.Serves s.handedOut ahead)
    (hlast : ahead xid.last) (hahead : ∀ x, xid.last < x ∧ x ≤ xid.max → ahead x)
    (hle : xid.last ≤ xid.max) (hnonzero : xid.last = xid.max → xid.last ≠ 0)
    (hxid : t.xid = xid) (hrecords : s.Records t (XcbXid.ret xid).2) : Counting setup t := by
  obtain ⟨haborted, hhanded⟩ := hrecords
  subst hxid
  refine ⟨hinc, hbase, hle, fun hmax hzero => absurd hzero (hnonzero hmax), ?_, ?_⟩
  · rw [hhanded, hbase]
    exact hserves.advance hlast hahead
  · rw [haborted]
    nofun

/-- A call that hands out nothing. -/
theorem of_eq (h : Counting setup s) (hxid : t.xid = s.xid) (hhanded : t.handedOut = s.handedOut)
    (haborted : t.aborted ≠ some .lastIsMax) : Counting setup t where
  inc := by rw [hxid, h.inc]
  base := by rw [hxid, h.base]
  le := by rw [hxid]; exact h.le
  start := by rw [hxid, hhanded]; exact h.start
  serves := by rw [hxid, hhanded]; exact h.serves
  lastIsMax := haborted

theorem of_failure (h : Counting setup s) (hxid : t.xid = s.xid)
    (hrecords : s.Records t (.returned XcbXid.failure)) : Counting setup t := by
  obtain ⟨haborted, hhanded⟩ := hrecords
  refine h.of_eq hxid ?_ (by rw [haborted]; nofun)
  rw [hhanded]
  exact List.append_nil _

/-- A client whose mask has bit `0` stays sound with each call. -/
theorem step (hvalid : setup.Valid) {width : ℕ}
    (hrun : BitRun.IsRun setup.resourceIdMask 0 width) (hinc : setup.increment = 1)
    (h : Counting setup s) (hgranted : s.Granted setup call)
    (hstep : s.step setup call = some t) : Counting setup t := by
  obtain ⟨-, -, move, hmoves, hxid, hrecords⟩ := step_cases hstep
  have hend := end_iff h.inc
  cases hmoves with
  | inError => exact h.of_failure hxid hrecords
  | refused => exact h.of_failure hxid hrecords
  | mismatch herror hatEnd hne =>
    exact absurd (BitVec.le_antisymm h.le (hend.mp hatEnd)) hne
  | empty => exact h.of_eq hxid hrecords.2 (by rw [hrecords.1]; nofun)
  | initial herror hatEnd hmax hzero =>
    have hserves := serves_initial hvalid hrun
    rw [← h.start hmax hzero] at hserves
    have hle : s.xid.last ≤ setup.resourceIdMask := by
      rw [hzero]
      exact Nat.zero_le _
    refine of_ret { s.xid with max := setup.resourceIdMask } h.inc h.base hserves hle
      (fun x hx => hx.2) hle (fun heq _ => ?_) hxid hrecords
    have hbit := hrun.bit 0
    rw [← show s.xid.last = setup.resourceIdMask from heq, hzero] at hbit
    simp [hrun.pos] at hbit
  | granted range herror hatEnd hmax hzero hrange hleft hcount hstart =>
    obtain ⟨hle, hserves⟩ :=
      serves_granted hinc h.inc h.serves (hgranted range hrange hleft) hcount
    refine of_ret { s.xid with
      last := range.startId, max := range.startId + (range.count - 1) * s.xid.inc }
      h.inc h.base hserves ⟨BitVec.le_refl _, hle⟩
      (fun x hx => ⟨BitVec.le_of_lt hx.1, hx.2⟩) hle (fun _ h0 => ?_) hxid hrecords
    rw [show range.startId = 0 from h0] at hstart
    exact BitVec.lt_irrefl _ hstart
  | stepped herror hbefore =>
    have hlt : s.xid.last < s.xid.max := BitVec.not_le.mp fun hle => hbefore (hend.mpr hle)
    have hnext : s.xid.last < s.xid.last + s.xid.inc ∧ s.xid.last + s.xid.inc ≤ s.xid.max ∧
        s.xid.last + s.xid.inc ≠ 0 := by
      rw [h.inc]
      bv_omega
    refine of_ret { s.xid with last := s.xid.last + s.xid.inc } h.inc h.base h.serves
      ⟨hnext.1, hnext.2.1⟩ (fun x hx => ⟨?_, hx.2⟩) hnext.2.1 (fun _ => hnext.2.2) hxid hrecords
    have hx := hx.1
    have hfirst := hnext.1
    change s.xid.last + s.xid.inc < x at hx
    bv_omega

theorem sound (h : Counting setup s) : s.Sound setup :=
  ⟨h.serves.inRange, h.serves.unique, h.lastIsMax⟩

end Counting

end Allocation

/-! ### Masks without bit `0` -/

namespace Setup

variable {setup : Setup} {position width k i j : ℕ}

/-- The value of `last` after `k` steps from `0`. -/
def part (setup : Setup) (k : ℕ) : BitVec 32 :=
  BitVec.ofNat 32 k * setup.increment

/-- The identifier returned after `k` steps. -/
def multiple (setup : Setup) (k : ℕ) : BitVec 32 :=
  setup.part k ||| setup.resourceIdBase

theorem part_succ (k : ℕ) : setup.part (k + 1) = setup.part k + setup.increment := by
  rw [part, part, BitVec.ofNat_add, add_mul]
  exact congrArg _ (one_mul _)

theorem multiple_one : setup.multiple 1 = setup.resourceIdBase ||| setup.increment := by
  rw [multiple, BitVec.or_comm, part]
  exact congrArg _ (one_mul _)

theorem multiple_zero : setup.multiple 0 = setup.resourceIdBase := by
  rw [multiple, part]
  simp

section

variable (hrun : BitRun.IsRun setup.resourceIdMask position width) (hvalid : setup.Valid)
include hrun

theorem part_eq (k : ℕ) : setup.part k = BitVec.ofNat 32 k * BitVec.twoPow 32 position := by
  rw [part, increment, hrun.lowest]

theorem toNat_part (k : ℕ) : (setup.part k).toNat = k * 2 ^ position % 2 ^ 32 := by
  rw [part_eq hrun, hrun.multiple_toNat]

theorem part_and_not (hk : k < 2 ^ width) : setup.part k &&& ~~~setup.resourceIdMask = 0 := by
  rw [part_eq hrun]
  exact hrun.multiple_and_not hk

/-- The step beyond the mask. -/
theorem part_end : setup.part (2 ^ width) = setup.resourceIdMask + setup.increment := by
  have hpos := Nat.two_pow_pos width
  have hmask : setup.part (2 ^ width - 1) = setup.resourceIdMask := by
    apply BitVec.eq_of_toNat_eq
    rw [toNat_part hrun, ← hrun.toNat_eq, Nat.mod_eq_of_lt (BitVec.isLt _)]
  rw [← hmask, ← part_succ, Nat.sub_add_cancel hpos]

theorem part_end_and : setup.part (2 ^ width) &&& setup.resourceIdMask = 0 := by
  rw [part_eq hrun]
  exact hrun.end_and

theorem part_injective (hi : i < 2 ^ width) (hj : j < 2 ^ width)
    (h : setup.part i = setup.part j) : i = j := by
  have hle : 2 ^ width * 2 ^ position ≤ 2 ^ 32 := by
    rw [← pow_add]
    exact Nat.pow_le_pow_right two_pos (by have := hrun.le; omega)
  have hlt : ∀ {k : ℕ}, k < 2 ^ width → k * 2 ^ position < 2 ^ 32 := fun hk =>
    lt_of_lt_of_le (Nat.mul_lt_mul_of_pos_right hk (Nat.two_pow_pos position)) hle
  have h := congrArg BitVec.toNat h
  rw [toNat_part hrun, toNat_part hrun, Nat.mod_eq_of_lt (hlt hi), Nat.mod_eq_of_lt (hlt hj)] at h
  exact Nat.eq_of_mul_eq_mul_right (Nat.two_pow_pos position) h

/-- The number of nonzero parts. -/
theorem toNat_div : setup.resourceIdMask.toNat / setup.increment.toNat = 2 ^ width - 1 := by
  rw [increment, hrun.lowest, hrun.toNat_lowest, hrun.toNat_eq,
    Nat.mul_div_cancel _ (Nat.two_pow_pos position)]

theorem resourceIdMask_ne_zero : setup.resourceIdMask ≠ 0 := by
  intro h0
  have hbit := hrun.bit position
  rw [h0] at hbit
  simp [hrun.pos] at hbit

/-- A value without bits of the mask is not the failure value. -/
theorem ne_failure {x : BitVec 32} (hx : x &&& setup.resourceIdMask = 0) :
    x ≠ XcbXid.failure := by
  rintro rfl
  refine resourceIdMask_ne_zero hrun ?_
  rw [← hx]
  exact (BitVec.allOnes_and).symm

include hvalid

theorem inRange_multiple (hk : k < 2 ^ width) : setup.InRange (setup.multiple k) :=
  BitRun.or_and_not (part_and_not hrun hk) hvalid.disjoint

theorem multiple_ne (hi : i < 2 ^ width) (hj : j < 2 ^ width) (hne : i ≠ j) :
    setup.multiple i ≠ setup.multiple j := fun h =>
  hne (part_injective hrun hi hj
    (BitRun.or_injective (part_and_not hrun hi) (part_and_not hrun hj) hvalid.disjoint h))

theorem multiple_end_and :
    setup.multiple (2 ^ width) &&& setup.resourceIdMask = 0 := by
  rw [multiple, BitVec.and_or_distrib_right, part_end_and hrun, hvalid.disjoint]
  rfl

theorem inRange_end_iff : setup.InRange (setup.multiple (2 ^ width)) ↔
    (setup.resourceIdMask + setup.increment) &&& ~~~setup.resourceIdBase = 0 := by
  rw [← part_end hrun]
  exact BitRun.or_and_not_of_and_eq_zero (part_end_and hrun) hvalid.disjoint

/-- The step beyond the mask comes back to the base if the base has that bit. -/
theorem multiple_end (h : setup.InRange (setup.multiple (2 ^ width))) :
    setup.multiple (2 ^ width) = setup.resourceIdBase := by
  have hinside : setup.part (2 ^ width) &&& ~~~setup.resourceIdBase = 0 := by
    rw [part_end hrun]
    exact (inRange_end_iff hrun hvalid).mp h
  apply BitVec.eq_of_getLsbD_eq
  intro i hi
  have hbit := congrArg (BitVec.getLsbD · i) hinside
  simp only [multiple, BitVec.getLsbD_and, BitVec.getLsbD_or, BitVec.getLsbD_not, hi, decide_true,
    Bool.true_and, BitVec.ofNat_eq_ofNat, BitVec.getLsbD_zero] at hbit ⊢
  revert hbit
  cases (setup.part (2 ^ width)).getLsbD i <;> cases setup.resourceIdBase.getLsbD i <;> simp

/-- The one after it is the first one again. -/
theorem multiple_end_succ (h : setup.InRange (setup.multiple (2 ^ width))) :
    setup.multiple (2 ^ width + 1) = setup.multiple 1 := by
  have hwidth : 1 < 2 ^ width := Nat.one_lt_two_pow hrun.pos.ne'
  have hone : setup.part 1 = setup.increment := by
    rw [part]
    exact one_mul _
  have hdisjoint : setup.part (2 ^ width) &&& setup.increment = 0 := by
    have hpart := part_and_not hrun hwidth
    rw [hone] at hpart
    apply BitVec.eq_of_getLsbD_eq
    intro i hi
    have h₁ := congrArg (BitVec.getLsbD · i) hpart
    have h₂ := congrArg (BitVec.getLsbD · i) (part_end_and hrun)
    simp only [BitVec.getLsbD_and, BitVec.getLsbD_not, hi, decide_true, Bool.true_and,
      BitVec.ofNat_eq_ofNat, BitVec.getLsbD_zero] at h₁ h₂ ⊢
    revert h₁ h₂
    cases (setup.part (2 ^ width)).getLsbD i <;> cases setup.increment.getLsbD i <;>
      cases setup.resourceIdMask.getLsbD i <;> simp
  rw [multiple, part_succ, BitVec.add_eq_or_of_and_eq_zero _ _ hdisjoint, BitVec.or_comm
    (setup.part _), BitVec.or_assoc, ← multiple, multiple_end hrun hvalid h, multiple, hone]

end

/-! #### A mask of one bit and all other bits in the base -/

/-- Then every second identifier is the failure value. -/
theorem multiple_of_full (hrun : BitRun.IsRun setup.resourceIdMask position width)
    (hvalid : setup.Valid) (hfull : setup.resourceIdBase ||| setup.increment = XcbXid.failure) :
    2 ^ width = 2 ∧ setup.multiple 2 = setup.resourceIdBase ∧
      setup.multiple 4 = setup.resourceIdBase := by
  have hbits : ∀ i < 32, setup.resourceIdMask.getLsbD i = setup.increment.getLsbD i ∧
      setup.resourceIdBase.getLsbD i = !setup.resourceIdMask.getLsbD i := by
    intro i hi
    have h₁ : (setup.resourceIdBase ||| setup.increment).getLsbD i = true := by
      rw [hfull, show XcbXid.failure = BitVec.allOnes 32 from rfl, BitVec.getLsbD_allOnes,
        decide_eq_true hi]
    have h₂ := congrArg (BitVec.getLsbD · i) hvalid.disjoint
    simp only [increment, BitVec.getLsbD_or, BitVec.getLsbD_and, BitVec.ofNat_eq_ofNat,
      BitVec.getLsbD_zero] at h₁ h₂ ⊢
    revert h₁ h₂
    cases setup.resourceIdBase.getLsbD i <;> cases setup.resourceIdMask.getLsbD i <;>
      cases (-setup.resourceIdMask).getLsbD i <;> simp
  have hmask : setup.resourceIdMask = setup.increment :=
    BitVec.eq_of_getLsbD_eq fun i hi => (hbits i hi).1
  have hwidth : 2 ^ width = 2 := by
    have hdiv := toNat_div hrun
    have hpos : 0 < setup.increment.toNat := by
      rw [increment, hrun.lowest, hrun.toNat_lowest]
      exact Nat.two_pow_pos position
    rw [← hmask, Nat.div_self (hmask ▸ hpos)] at hdiv
    omega
  have houtside : ∀ x, x &&& setup.resourceIdMask = 0 →
      x ||| setup.resourceIdBase = setup.resourceIdBase := by
    intro x hx
    apply BitVec.eq_of_getLsbD_eq
    intro i hi
    have hbit := congrArg (BitVec.getLsbD · i) hx
    have hbase := (hbits i hi).2
    simp only [BitVec.getLsbD_or, BitVec.getLsbD_and, BitVec.ofNat_eq_ofNat,
      BitVec.getLsbD_zero] at hbit hbase ⊢
    revert hbit hbase
    cases x.getLsbD i <;> cases setup.resourceIdBase.getLsbD i <;>
      cases setup.resourceIdMask.getLsbD i <;> simp
  have hfour : setup.part 4 &&& setup.resourceIdMask = 0 := by
    have hone : width = 1 := Nat.pow_right_injective le_rfl (hwidth.trans (pow_one 2).symm)
    apply BitVec.eq_of_getLsbD_eq
    intro i hi
    rw [BitVec.getLsbD_and, ← BitVec.testBit_toNat, toNat_part hrun, Nat.testBit_mod_two_pow,
      show 4 = 2 ^ 2 from rfl, ← pow_add, Nat.testBit_two_pow, hrun.bit, BitVec.ofNat_eq_ofNat,
      BitVec.getLsbD_zero, Bool.and_eq_false_iff, decide_eq_false_iff_not, Bool.and_eq_false_iff,
      decide_eq_false_iff_not, decide_eq_false_iff_not]
    omega
  have htwo := part_end_and hrun
  rw [hwidth] at htwo
  exact ⟨hwidth, houtside _ htwo, houtside _ hfour⟩

end Setup

namespace Allocation

variable {setup : Setup} {s t : Allocation} {call : Surroundings} {position width : ℕ}

/-- What `n` calls hand out that find no end of a range. -/
def walk (setup : Setup) (n : ℕ) : List (BitVec 32) :=
  ((List.range n).map fun k => setup.multiple (k + 1)).filter (· ≠ XcbXid.failure)

theorem walk_succ (setup : Setup) (n : ℕ) :
    walk setup (n + 1) = walk setup n ++ [setup.multiple (n + 1)].filter (· ≠ XcbXid.failure) := by
  rw [walk, List.range_succ, List.map_append, List.filter_append]
  rfl

theorem mem_walk {n : ℕ} {id : BitVec 32} : id ∈ walk setup n ↔
    id ≠ XcbXid.failure ∧ ∃ k, 0 < k ∧ k ≤ n ∧ setup.multiple k = id := by
  rw [walk, List.mem_filter, List.mem_map, decide_eq_true_eq, and_comm]
  refine and_congr_right fun _ => ?_
  constructor
  · rintro ⟨k, hk, rfl⟩
    exact ⟨k + 1, k.succ_pos, List.mem_range.mp hk, rfl⟩
  · rintro ⟨k, hpos, hle, rfl⟩
    exact ⟨k - 1, List.mem_range.mpr (by omega), by rw [Nat.sub_add_cancel hpos]⟩

theorem nodup_walk {n : ℕ} : (walk setup n).Nodup ↔
    ∀ i j, 0 < i → i < j → j ≤ n → setup.multiple i ≠ XcbXid.failure →
      setup.multiple i ≠ setup.multiple j := by
  rw [walk, List.Nodup, List.pairwise_filter, List.pairwise_map, List.pairwise_iff_getElem]
  simp only [List.length_range, List.getElem_range, decide_eq_true_eq]
  constructor
  · intro h i j hpos hlt hle hfailure heq
    have hne := h (i - 1) (j - 1) (by omega) (by omega) (by omega)
    rw [Nat.sub_add_cancel hpos, Nat.sub_add_cancel (hpos.trans hlt)] at hne
    exact hne hfailure (heq ▸ hfailure) heq
  · intro h i j _ hj hlt hfailure _
    exact h (i + 1) (j + 1) i.succ_pos (by omega) (by omega) hfailure

/-- A client whose increment is not `1` has taken one step for each call. -/
structure Walking (setup : Setup) (s : Allocation) : Prop where
  max : s.xid.max = 0
  inc : s.xid.inc = setup.increment
  base : s.xid.base = setup.resourceIdBase
  last : s.xid.last = setup.part s.inOrder
  handedOut : s.handedOut = walk setup s.inOrder
  aborted : s.aborted = none

theorem walking_init (setup : Setup) : Walking setup (init setup) where
  max := rfl
  inc := rfl
  base := rfl
  last := (zero_mul setup.increment).symm
  handedOut := rfl
  aborted := rfl

/-- The comparison fails at every multiple of an increment that is not `1`. -/
theorem not_end (hrun : BitRun.IsRun setup.resourceIdMask position width) (hpos : 0 < position)
    (k : ℕ) : ¬ 0 - setup.increment + 1 ≤ setup.part k := by
  have hlt : position < 32 := by
    have := hrun.pos
    have := hrun.le
    omega
  have hinc : setup.increment.toNat = 2 ^ position := by
    rw [Setup.increment, hrun.lowest, hrun.toNat_lowest]
  have htwo : 2 ≤ 2 ^ position := Nat.le_self_pow hpos.ne' 2
  have hbound : 2 ^ position < 2 ^ 32 := Nat.pow_lt_pow_right one_lt_two hlt
  have hpart : (setup.part k).toNat ≤ 2 ^ 32 - 2 ^ position := by
    have hsplit : 2 ^ 32 = 2 ^ (32 - position) * 2 ^ position := by
      rw [← pow_add]
      congr 1
      omega
    rw [Setup.toNat_part hrun, hsplit, Nat.mul_mod_mul_right, ← Nat.sub_one_mul]
    exact Nat.mul_le_mul_right _ (Nat.le_sub_one_of_lt (Nat.mod_lt _ (Nat.two_pow_pos _)))
  have hend : (0 - setup.increment + 1).toNat = 2 ^ 32 - 2 ^ position + 1 := by
    rw [← hinc] at htwo hbound ⊢
    bv_omega
  rw [BitVec.le_def, hend]
  omega

theorem Walking.step (hrun : BitRun.IsRun setup.resourceIdMask position width)
    (hpos : 0 < position) (h : Walking setup s) (hstep : s.step setup call = some t) :
    Walking setup t := by
  obtain ⟨-, hinOrder, move, hmoves, hxid, hrecords⟩ := step_cases hstep
  have hbefore : ¬ s.xid.max - s.xid.inc + 1 ≤ s.xid.last := by
    rw [h.max, h.inc, h.last]
    exact not_end hrun hpos _
  cases hmoves with
  | inError herror =>
    rw [if_pos herror] at hinOrder
    obtain ⟨haborted, hhanded⟩ := hrecords
    refine ⟨by rw [hxid, h.max], by rw [hxid, h.inc], by rw [hxid, h.base],
      by rw [hxid, hinOrder, h.last], ?_, haborted⟩
    rw [hhanded, hinOrder, ← h.handedOut]
    exact List.append_nil _
  | stepped herror =>
    rw [herror, if_neg Bool.false_ne_true] at hinOrder
    obtain ⟨haborted, hhanded⟩ := hrecords
    have hlast : s.xid.last + s.xid.inc = setup.part (s.inOrder + 1) := by
      rw [h.last, h.inc, Setup.part_succ]
    refine ⟨by rw [hxid]; exact h.max, by rw [hxid]; exact h.inc, by rw [hxid]; exact h.base,
      by rw [hxid, hinOrder]; exact hlast, ?_, haborted⟩
    rw [hhanded, hinOrder, walk_succ, Setup.multiple, ← hlast, h.handedOut, ← h.base]
  | mismatch _ hend => exact absurd hend hbefore
  | initial _ hend => exact absurd hend hbefore
  | refused _ hend => exact absurd hend hbefore
  | empty _ hend => exact absurd hend hbefore
  | granted _ _ hend => exact absurd hend hbefore

/-- The calls that a mask without bit `0` is good for. -/
theorem sound_walk_iff (hrun : BitRun.IsRun setup.resourceIdMask position width)
    (hvalid : setup.Valid) (n : ℕ) :
    ((∀ id ∈ walk setup n, setup.InRange id) ∧ (walk setup n).Nodup) ↔ n ≤ setup.span := by
  have hone : 1 < 2 ^ width := Nat.one_lt_two_pow hrun.pos.ne'
  have hzero := Nat.two_pow_pos width
  have hbase : setup.resourceIdBase ≠ XcbXid.failure :=
    Setup.ne_failure hrun hvalid.disjoint
  have hend : setup.multiple (2 ^ width) ≠ XcbXid.failure :=
    Setup.ne_failure hrun (Setup.multiple_end_and hrun hvalid)
  have hinside : ∀ m < 2 ^ width, ∀ id ∈ walk setup m, setup.InRange id := by
    intro m hm id hid
    obtain ⟨-, k, -, hk, rfl⟩ := mem_walk.mp hid
    exact Setup.inRange_multiple hrun hvalid (hk.trans_lt hm)
  rw [Setup.span, Setup.toNat_div hrun]
  split
  · -- every second identifier is the failure value
    next hfull =>
    obtain ⟨hwidth, hsecond, hfourth⟩ := Setup.multiple_of_full hrun hvalid hfull
    have hfirst : setup.multiple 1 = XcbXid.failure := Setup.multiple_one.trans hfull
    have hrange : setup.InRange (setup.multiple (2 ^ width)) := by
      rw [hwidth, hsecond, ← Setup.multiple_zero]
      exact Setup.inRange_multiple hrun hvalid hzero
    have hthird := Setup.multiple_end_succ hrun hvalid hrange
    rw [hwidth, hfirst] at hthird
    constructor
    · rintro ⟨-, hnodup⟩
      by_contra hn
      exact nodup_walk.mp hnodup 2 4 two_pos (by omega) (by omega) (hsecond ▸ hbase)
        (hsecond.trans hfourth.symm)
    · intro hn
      refine ⟨?_, nodup_walk.mpr ?_⟩
      · intro id hid
        obtain ⟨hne, k, hpos, hk, rfl⟩ := mem_walk.mp hid
        obtain rfl | rfl | rfl : k = 1 ∨ k = 2 ∨ k = 3 := by omega
        · exact absurd hfirst hne
        · rwa [hwidth] at hrange
        · exact absurd hthird hne
      · intro i j hpos hlt hj hne
        obtain rfl : i = 2 := by
          by_contra h2
          obtain rfl : i = 1 := by omega
          exact hne hfirst
        obtain rfl : j = 3 := by omega
        rw [hthird]
        exact hne
  · next hfull =>
    have hfirst : setup.multiple 1 ≠ XcbXid.failure := by
      rwa [Setup.multiple_one]
    split
    · -- the step beyond the mask gives the base itself, the next one repeats
      next hbit =>
      have hrange := (Setup.inRange_end_iff hrun hvalid).mpr hbit
      rw [Nat.sub_add_cancel hzero]
      constructor
      · rintro ⟨-, hnodup⟩
        by_contra hn
        exact nodup_walk.mp hnodup 1 (2 ^ width + 1) one_pos (by omega) (by omega) hfirst
          (Setup.multiple_end_succ hrun hvalid hrange).symm
      · intro hn
        refine ⟨?_, nodup_walk.mpr ?_⟩
        · intro id hid
          obtain ⟨-, k, -, hk, rfl⟩ := mem_walk.mp hid
          rcases (hk.trans hn).lt_or_eq with hlt | rfl
          · exact Setup.inRange_multiple hrun hvalid hlt
          · exact hrange
        · intro i j hpos hlt hj hne
          rcases (hj.trans hn).lt_or_eq with hlt' | rfl
          · exact Setup.multiple_ne hrun hvalid (hlt.trans hlt') hlt' hlt.ne
          · rw [Setup.multiple_end hrun hvalid hrange, ← Setup.multiple_zero]
            exact Setup.multiple_ne hrun hvalid hlt hzero hpos.ne'
    · -- it leaves the range
      next hbit =>
      constructor
      · rintro ⟨hrange, -⟩
        by_contra hn
        exact hbit ((Setup.inRange_end_iff hrun hvalid).mp
          (hrange _ (mem_walk.mpr ⟨hend, 2 ^ width, hzero, by omega, rfl⟩)))
      · intro hn
        refine ⟨hinside n (by omega), nodup_walk.mpr ?_⟩
        intro i j hpos hlt hj hne
        exact Setup.multiple_ne hrun hvalid (by omega) (by omega) hlt.ne

/-- **Identifiers are allocated soundly**, in every run in which what the server grants is as the
client may expect, if and only if the mask has bit `0` or there were few calls. -/
theorem sound_iff (hvalid : setup.Valid)
    (h : Transition.Reach (step setup) (Granted setup) (init setup) s) :
    s.Sound setup ↔ setup.resourceIdMask.getLsbD 0 = true ∨ s.inOrder ≤ setup.span := by
  obtain ⟨position, width, hrun⟩ := hvalid.contiguous
  rcases Nat.eq_zero_or_pos position with rfl | hpos
  · have hinc : setup.increment = 1 := by
      rw [Setup.increment, hrun.lowest]
      rfl
    have hcounting : Counting setup s := h.invariant (P := Counting setup)
      (fun _ _ _ hs hok hstep => hs.step hvalid hrun hinc hok hstep) (counting_init hinc)
    refine iff_of_true hcounting.sound (.inl ?_)
    rw [hrun.bit, decide_eq_true_eq]
    exact ⟨le_rfl, by rw [zero_add]; exact hrun.pos⟩
  · have hwalking : Walking setup s := h.invariant (P := Walking setup)
      (fun _ _ _ hs _ hstep => hs.step hrun hpos hstep) (walking_init setup)
    have hbit : setup.resourceIdMask.getLsbD 0 = false := by
      rw [hrun.bit, decide_eq_false_iff_not]
      omega
    rw [hbit, ← sound_walk_iff hrun hvalid, ← hwalking.handedOut]
    constructor
    · intro hs
      exact .inr ⟨hs.inRange, hs.unique⟩
    · rintro (hfalse | ⟨hrange, hunique⟩)
      · cases hfalse
      · exact ⟨hrange, hunique, by rw [hwalking.aborted]; nofun⟩

/-- The calls of a client: the first four find an identifier in the range of the setup, and the
fifth one asks the server, which has none left. -/
def exhausting : List Surroundings :=
  List.replicate 4 ⟨false, true, none⟩ ++ [⟨false, true, some ⟨0, 1⟩⟩]

/-- A mask with bit `0`, and a client that goes past the end of the range. -/
theorem sound_usual : ∃ s : Allocation,
    Transition.Reach (step ⟨0x200000, 3⟩) (Granted ⟨0x200000, 3⟩) (init ⟨0x200000, 3⟩) s ∧
      s.returned = [0x200000, 0x200001, 0x200002, 0x200003, XcbXid.failure] ∧
      s.Sound ⟨0x200000, 3⟩ := by
  have hrun : BitRun.IsRun (3 : BitVec 32) 0 2 := by
    refine ⟨by decide, by decide, fun i => ?_⟩
    rw [show (3 : BitVec 32) = BitVec.ofNat 32 (2 ^ 2 - 1) from rfl, BitVec.getLsbD_ofNat,
      Nat.testBit_two_pow_sub_one, Bool.eq_iff_iff]
    simp only [Bool.and_eq_true, decide_eq_true_eq]
    omega
  have hcalls : (exhausting.foldlM (step ⟨0x200000, 3⟩) (init ⟨0x200000, 3⟩)).map (·.returned) =
      some [0x200000, 0x200001, 0x200002, 0x200003, XcbXid.failure] := by
    decide
  obtain ⟨s, hs, hreturned⟩ := Option.map_eq_some_iff.mp hcalls
  have hreach : Transition.Reach (step ⟨0x200000, 3⟩) (Granted ⟨0x200000, 3⟩)
      (init ⟨0x200000, 3⟩) s := by
    refine .of_foldlM (fun u call hcall range hrange hleft => ?_) hs
    simp only [exhausting, List.mem_append, List.mem_replicate, List.mem_singleton] at hcall
    rcases hcall with ⟨-, rfl⟩ | rfl
    · cases hrange
    · cases hrange
      exact absurd ⟨rfl, rfl⟩ hleft
  exact ⟨s, hreach, hreturned, (sound_iff ⟨⟨0, 2, hrun⟩, by decide⟩ hreach).mpr (.inl (by decide))⟩

/-- **A mask that is bit `1`.** The second identifier is out of range. -/
theorem not_sound_single : ∃ s : Allocation,
    Transition.Reach (step ⟨0, 2⟩) (Granted ⟨0, 2⟩) (init ⟨0, 2⟩) s ∧
      s.handedOut = [2, 4] ∧ ¬ s.Sound ⟨0, 2⟩ := by
  have hgranted : ∀ s, Granted ⟨0, 2⟩ s ⟨false, false, none⟩ := fun _ _ hrange => nomatch hrange
  have hreach : Transition.Reach (step ⟨0, 2⟩) (Granted ⟨0, 2⟩) (init ⟨0, 2⟩) _ :=
    .tail (.single (a := ⟨false, false, none⟩) (hgranted _) rfl)
      (a := ⟨false, false, none⟩) (hgranted _) rfl
  exact ⟨_, hreach, by decide, fun hsound => absurd (hsound.inRange 4 (by decide)) (by
    unfold Setup.InRange
    decide)⟩

end Allocation

end Xcb
