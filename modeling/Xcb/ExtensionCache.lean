import Mathlib.Data.List.NodupEquivFin
import Mathlib.Logic.Function.Basic
import Xcb.Internal.Transition
import Xcb.Out

/-!
# The extension cache: `xcb_ext.c`

An extension record gets a number when it is first used, the same on all connections; each
connection has an array of slots, of which the record with number `idx` has the slot `idx - 1`, and
doubles it when a number is too large. A slot goes from `LAZY_NONE` to `LAZY_COOKIE` when the
`QueryExtension` is sent and from there to `LAZY_FORCED` when its reply is waited for.

`ext->lock` is held during a whole call, so a call is a step. Calls that run out of memory are left
out; the size of an array with more than `2 ^ 31` slots is not an `int`, so it is not made either.
`xcb_query_extension` is generated from the protocol description: all that is used of it is that it
sends the name it is given.

## Main definitions

* `ExtConnection` — what a connection knows about extensions
* `ExtConnection.getIndex`, `getLazyreply`, `getExtensionData`, `prefetchExtensionData`
* `Extensions` — the records and all connections, `Extensions.step` a call

## Main results

* `Extensions.cached_of_reach` — one query for each record, answered with its own reply
-/

namespace Xcb

/-- `lazyreply`. A cookie is the place of its request among the `QueryExtension` requests. -/
inductive LazyReply
  | none
  | cookie (query : ℕ)
  | forced (reply : Option QueryExtensionReply)
  deriving DecidableEq, Repr

/-- A slot only moves on. -/
def LazyReply.Before : LazyReply → LazyReply → Prop
  | .none, _ => True
  | .cookie n, l => l = .cookie n ∨ ∃ reply, l = .forced reply
  | .forced reply, l => l = .forced reply

theorem LazyReply.Before.refl (l : LazyReply) : l.Before l := by
  cases l with
  | none => trivial
  | cookie n => exact .inl rfl
  | forced reply => rfl

theorem LazyReply.Before.trans {l m k : LazyReply} (h : l.Before m) (h' : m.Before k) :
    l.Before k := by
  cases l with
  | none => trivial
  | cookie n =>
    rcases h with rfl | ⟨reply, rfl⟩
    · exact h'
    · exact .inr ⟨reply, h'⟩
  | forced reply =>
    obtain rfl : m = .forced reply := h
    exact h'

/-- `c->has_error` and `c->ext`, and the `QueryExtension` requests sent so far: for which record,
and with which name. -/
structure ExtConnection (ε : Type) where
  hasError : Bool
  extensions : List LazyReply
  queries : List (ε × String)

namespace ExtConnection

variable {ε : Type}

def init : ExtConnection ε := ⟨false, [], []⟩

/-- The slot of a record with number `idx`, `LAZY_NONE` where there is none yet. -/
def slot (c : ExtConnection ε) (idx : ℕ) : LazyReply :=
  if idx = 0 then .none else (c.extensions[idx - 1]?).getD .none

/-- `get_index`, up to the pointer it returns. -/
def getIndex (c : ExtConnection ε) (idx : ℕ) : Option (ExtConnection ε) :=
  if idx > c.extensions.length then
    if idx < 2 ^ 30 then
      some { c with
        extensions := c.extensions ++ List.replicate (2 * idx - c.extensions.length) .none }
    else none
  else some c

/-- `get_lazyreply`, for a record with number `idx`. -/
def getLazyreply (c : ExtConnection ε) (idx : ℕ) (ext : ε) (name : String) :
    Option (ExtConnection ε) :=
  (c.getIndex idx).map fun c =>
    if c.slot idx = .none then
      { c with
        extensions := c.extensions.set (idx - 1) (.cookie c.queries.length)
        queries := c.queries ++ [(ext, name)] }
    else c

/-- `xcb_get_extension_data`, and what it returns. `answer` is what `xcb_query_extension_reply`
returns for a cookie; with `dies` the connection breaks during the call, and it returns nothing. -/
def getExtensionData (c : ExtConnection ε) (idx : ℕ) (ext : ε) (name : String)
    (answer : ℕ → Option QueryExtensionReply) (dies : Bool) :
    Option (ExtConnection ε × Option QueryExtensionReply) :=
  if c.hasError then some (c, none)
  else (c.getLazyreply idx ext name).map fun c =>
    let c := { c with hasError := dies }
    match c.slot idx with
    | .cookie query =>
      let reply := if dies then none else answer query
      ({ c with extensions := c.extensions.set (idx - 1) (.forced reply) }, reply)
    | .forced reply => (c, reply)
    | .none => (c, none)

/-- `xcb_prefetch_extension_data` -/
def prefetchExtensionData (c : ExtConnection ε) (idx : ℕ) (ext : ε) (name : String) (dies : Bool) :
    Option (ExtConnection ε) :=
  if c.hasError then some c
  else (c.getLazyreply idx ext name).map fun c => { c with hasError := dies }

section calls

variable {c c' : ExtConnection ε} {idx : ℕ} {ext : ε} {name : String}

theorem slot_set {l : LazyReply} (hpos : 0 < idx) (hidx : idx ≤ c.extensions.length) (j : ℕ) :
    ({ c with extensions := c.extensions.set (idx - 1) l } : ExtConnection ε).slot j =
      if j = idx then l else c.slot j := by
  rw [slot, slot]
  by_cases hj : j = 0
  · rw [if_pos hj, if_pos hj, if_neg (by omega)]
  · rw [if_neg hj, if_neg hj]
    show ((c.extensions.set (idx - 1) l)[j - 1]?).getD .none = _
    rw [List.getElem?_set]
    by_cases heq : j = idx
    · subst heq
      rw [if_pos rfl, if_pos rfl, if_pos (by omega)]
      rfl
    · have hne : idx - 1 ≠ j - 1 := fun h => heq (Nat.pred_inj (Nat.pos_of_ne_zero hj) hpos h.symm)
      rw [if_neg hne, if_neg heq]

/-- **Growing the array** changes no slot. -/
theorem getIndex_cases (h : c.getIndex idx = some c') :
    idx ≤ c'.extensions.length ∧ c'.hasError = c.hasError ∧ c'.queries = c.queries ∧
      ∀ j, c'.slot j = c.slot j := by
  rw [getIndex] at h
  split at h
  · next hgt =>
    split at h
    · cases h
      refine ⟨?_, rfl, rfl, fun j => ?_⟩
      · show idx ≤ (c.extensions ++ _).length
        rw [List.length_append, List.length_replicate]
        omega
      · rw [slot, slot]
        congr 1
        show ((c.extensions ++ _)[j - 1]?).getD .none = _
        rw [List.getElem?_append]
        split
        · rfl
        · next hge =>
          rw [List.getElem?_replicate, List.getElem?_eq_none (Nat.not_lt.mp hge)]
          split <;> rfl
    · cases h
  · next hle =>
    cases h
    exact ⟨Nat.not_lt.mp hle, rfl, rfl, fun _ => rfl⟩

/-- **A slot is used once for a query**, and left alone after that. -/
theorem getLazyreply_cases (hpos : 0 < idx) (h : c.getLazyreply idx ext name = some c') :
    idx ≤ c'.extensions.length ∧ c'.hasError = c.hasError ∧
      (c.slot idx = .none ∧ c'.queries = c.queries ++ [(ext, name)] ∧
          (∀ j, c'.slot j = if j = idx then .cookie c.queries.length else c.slot j) ∨
        c.slot idx ≠ .none ∧ c'.queries = c.queries ∧ ∀ j, c'.slot j = c.slot j) := by
  obtain ⟨grown, hgrown, rfl⟩ := Option.map_eq_some_iff.mp h
  obtain ⟨hidx, herror, hqueries, hslot⟩ := getIndex_cases hgrown
  split
  · next hnone =>
    refine ⟨by simpa using hidx, herror, .inl ⟨hslot idx ▸ hnone, by rw [hqueries], fun j => ?_⟩⟩
    exact (slot_set hpos hidx j).trans (by rw [hslot, hqueries])
  · next hsome => exact ⟨hidx, herror, .inr ⟨hslot idx ▸ hsome, hqueries, hslot⟩⟩

/-! ### What a connection keeps -/

/-- The query for `ext` is the `n`-th one, and the only one for it. -/
def AskedAt (name : ε → String) (c : ExtConnection ε) (ext : ε) (n : ℕ) : Prop :=
  c.queries[n]? = some (ext, name ext) ∧ ∀ m q, c.queries[m]? = some q → q.1 = ext → m = n

/-- What a slot says about the queries for its record. -/
def Tracks (name : ε → String) (answer : ℕ → Option QueryExtensionReply) (c : ExtConnection ε)
    (ext : ε) : LazyReply → Prop
  | .none => ∀ q ∈ c.queries, q.1 ≠ ext
  | .cookie n => c.AskedAt name ext n
  | .forced reply => ∃ n, c.AskedAt name ext n ∧ (c.hasError = false → reply = answer n)

/-- Every record's slot says what became of its query. -/
structure Caches (name : ε → String) (answer : ℕ → Option QueryExtensionReply) (globalId : ε → ℕ)
    (c : ExtConnection ε) : Prop where
  own : ∀ q ∈ c.queries, q.2 = name q.1
  tracks : ∀ ext, c.Tracks name answer ext (c.slot (globalId ext))

variable {names : ε → String} {answer : ℕ → Option QueryExtensionReply} {globalId : ε → ℕ}

theorem AskedAt.congr {n : ℕ} (h : c.AskedAt names ext n) (hqueries : c'.queries = c.queries) :
    c'.AskedAt names ext n := by
  rw [AskedAt, hqueries]
  exact h

theorem AskedAt.append {n : ℕ} {e : ε} (h : c.AskedAt names ext n) (hne : e ≠ ext)
    (hqueries : c'.queries = c.queries ++ [(e, name)]) : c'.AskedAt names ext n := by
  obtain ⟨hn, hunique⟩ := h
  have hlt := (List.getElem?_eq_some_iff.mp hn).1
  rw [AskedAt, hqueries]
  refine ⟨by rw [List.getElem?_append_left hlt, hn], fun m q hm hq => ?_⟩
  rcases Nat.lt_or_ge m c.queries.length with hlt' | hge
  · rw [List.getElem?_append_left hlt'] at hm
    exact hunique m q hm hq
  · rw [List.getElem?_append_right hge] at hm
    have hmem := List.mem_of_getElem? hm
    rw [List.mem_singleton.mp hmem] at hq
    exact absurd hq hne

theorem Tracks.congr {l : LazyReply} (h : c.Tracks names answer ext l)
    (hqueries : c'.queries = c.queries) (herror : c'.hasError = false → c.hasError = false) :
    c'.Tracks names answer ext l := by
  cases l with
  | none =>
    show ∀ q ∈ c'.queries, q.1 ≠ ext
    rw [hqueries]
    exact h
  | cookie n => exact AskedAt.congr h hqueries
  | forced reply =>
    obtain ⟨n, hn, hreply⟩ := h
    exact ⟨n, hn.congr hqueries, fun hlive => hreply (herror hlive)⟩

theorem Tracks.append {l : LazyReply} {e : ε} (h : c.Tracks names answer ext l) (hne : e ≠ ext)
    (hqueries : c'.queries = c.queries ++ [(e, name)]) (herror : c'.hasError = c.hasError) :
    c'.Tracks names answer ext l := by
  cases l with
  | none =>
    show ∀ q ∈ c'.queries, q.1 ≠ ext
    intro q hq
    rw [hqueries] at hq
    rcases List.mem_append.mp hq with hq | hq
    · exact h q hq
    · rw [List.mem_singleton.mp hq]
      exact hne
  | cookie n => exact AskedAt.append h hne hqueries
  | forced reply =>
    obtain ⟨n, hn, hreply⟩ := h
    exact ⟨n, hn.append hne hqueries, fun hlive => hreply (herror ▸ hlive)⟩

theorem Caches.getLazyreply (h : c.Caches names answer globalId) (hid : globalId ext ≠ 0)
    (hinj : ∀ e, globalId e = globalId ext → e = ext)
    (hcall : c.getLazyreply (globalId ext) ext (names ext) = some c') :
    c'.Caches names answer globalId := by
  obtain ⟨-, herror, ⟨hnone, hqueries, hslot⟩ | ⟨-, hqueries, hslot⟩⟩ :=
    getLazyreply_cases (Nat.pos_of_ne_zero hid) hcall
  · have hfresh : c.Tracks names answer ext .none := hnone ▸ h.tracks ext
    refine ⟨fun q hq => ?_, fun e => ?_⟩
    · rw [hqueries] at hq
      rcases List.mem_append.mp hq with hq | hq
      · exact h.own q hq
      · rw [List.mem_singleton.mp hq]
    · rw [hslot]
      by_cases he : globalId e = globalId ext
      · rw [if_pos he]
        obtain rfl := hinj e he
        rw [Tracks, AskedAt, hqueries]
        refine ⟨List.getElem?_concat_length, fun m q hm hq => ?_⟩
        by_contra hne
        have hlt : m < c.queries.length := by
          have := (List.getElem?_eq_some_iff.mp hm).1
          rw [List.length_append, List.length_singleton] at this
          omega
        rw [List.getElem?_append_left hlt] at hm
        exact hfresh q (List.mem_of_getElem? hm) hq
      · rw [if_neg he]
        exact (h.tracks e).append (fun heq => he (heq ▸ rfl)) hqueries herror
  · refine ⟨fun q hq => h.own q (hqueries ▸ hq), fun e => ?_⟩
    rw [hslot]
    exact (h.tracks e).congr hqueries fun hlive => herror ▸ hlive

/-- What a call for the record with number `idx` does to a connection. -/
structure Extends (idx : ℕ) (c c' : ExtConnection ε) : Prop where
  queries : c.queries <+: c'.queries
  others : ∀ j, j ≠ idx → c'.slot j = c.slot j
  before : (c.slot idx).Before (c'.slot idx)

theorem Extends.refl (idx : ℕ) (c : ExtConnection ε) : Extends idx c c :=
  ⟨List.prefix_refl _, fun _ _ => rfl, .refl _⟩

theorem extends_getLazyreply (hpos : 0 < idx) (h : c.getLazyreply idx ext name = some c') :
    Extends idx c c' := by
  obtain ⟨-, -, ⟨hnone, hqueries, hslot⟩ | ⟨-, hqueries, hslot⟩⟩ := getLazyreply_cases hpos h
  · refine ⟨hqueries ▸ List.prefix_append _ _, fun j hj => by rw [hslot, if_neg hj], ?_⟩
    rw [hnone]
    trivial
  · refine ⟨hqueries ▸ List.prefix_refl _, fun j _ => hslot j, ?_⟩
    rw [hslot]
    exact .refl _

/-- The slot has been used after `get_lazyreply`. -/
theorem slot_getLazyreply_ne (hpos : 0 < idx) (h : c.getLazyreply idx ext name = some c') :
    c'.slot idx ≠ .none := by
  obtain ⟨-, -, ⟨-, -, hslot⟩ | ⟨hne, -, hslot⟩⟩ := getLazyreply_cases hpos h
  · rw [hslot, if_pos rfl]
    nofun
  · rw [hslot]
    exact hne

/-- The connection may break during a call. -/
theorem Caches.dies (h : c.Caches names answer globalId) (hlive : c.hasError = false)
    (dies : Bool) :
    Caches names answer globalId { c with hasError := dies } :=
  ⟨h.own, fun e => (h.tracks e).congr rfl fun _ => hlive⟩

theorem Caches.prefetchExtensionData (h : c.Caches names answer globalId) (hid : globalId ext ≠ 0)
    (hinj : ∀ e, globalId e = globalId ext → e = ext) {dies : Bool}
    (hcall : c.prefetchExtensionData (globalId ext) ext (names ext) dies = some c') :
    c'.Caches names answer globalId ∧ Extends (globalId ext) c c' := by
  rw [ExtConnection.prefetchExtensionData] at hcall
  split at hcall
  · cases hcall
    exact ⟨h, .refl _ _⟩
  · next hlive =>
    obtain ⟨looked, hlooked, rfl⟩ := Option.map_eq_some_iff.mp hcall
    have herror := (getLazyreply_cases (Nat.pos_of_ne_zero hid) hlooked).2.1
    have hextends := extends_getLazyreply (Nat.pos_of_ne_zero hid) hlooked
    refine ⟨(h.getLazyreply hid hinj hlooked).dies ?_ dies, hextends.queries, hextends.others,
      hextends.before⟩
    rw [herror]
    exact Bool.eq_false_iff.mpr hlive

/-- The reply takes the place of the cookie. -/
theorem Caches.force (h : c.Caches names answer globalId) (hpos : 0 < globalId ext)
    (hinj : ∀ e, globalId e = globalId ext → e = ext) (hidx : globalId ext ≤ c.extensions.length)
    {n : ℕ} (hslot : c.slot (globalId ext) = .cookie n) {reply : Option QueryExtensionReply}
    (hreply : c.hasError = false → reply = answer n) :
    Caches names answer globalId
      { c with extensions := c.extensions.set (globalId ext - 1) (.forced reply) } := by
  refine ⟨h.own, fun e => ?_⟩
  rw [slot_set hpos hidx]
  by_cases he : globalId e = globalId ext
  · rw [if_pos he]
    obtain rfl := hinj e he
    have htracks := h.tracks e
    rw [hslot] at htracks
    exact ⟨n, htracks, hreply⟩
  · rw [if_neg he]
    exact (h.tracks e).congr rfl id

/-- **What is returned** is the reply to the record's own query. -/
theorem Caches.getExtensionData (h : c.Caches names answer globalId) (hid : globalId ext ≠ 0)
    (hinj : ∀ e, globalId e = globalId ext → e = ext) {dies : Bool}
    {reply : Option QueryExtensionReply}
    (hcall : c.getExtensionData (globalId ext) ext (names ext) answer dies = some (c', reply)) :
    c'.Caches names answer globalId ∧ Extends (globalId ext) c c' ∧
      (c'.hasError = false → ∃ n, c'.AskedAt names ext n ∧ reply = answer n) := by
  have hpos := Nat.pos_of_ne_zero hid
  rw [ExtConnection.getExtensionData] at hcall
  split at hcall
  · next herror =>
    cases hcall
    exact ⟨h, .refl _ _, fun hlive => absurd (herror.symm.trans hlive) nofun⟩
  · next hlive =>
    obtain ⟨looked, hlooked, hcall⟩ := Option.map_eq_some_iff.mp hcall
    have hextends := extends_getLazyreply hpos hlooked
    have hused := slot_getLazyreply_ne hpos hlooked
    obtain ⟨hidx, herror, -⟩ := getLazyreply_cases hpos hlooked
    have hlooked' := (h.getLazyreply hid hinj hlooked).dies
      (herror.trans (Bool.eq_false_iff.mpr hlive)) dies
    have htracks := hlooked'.tracks ext
    have hslot' : ({ looked with hasError := dies } : ExtConnection ε).slot (globalId ext) =
        looked.slot (globalId ext) := rfl
    dsimp only at hcall
    rw [hslot'] at hcall htracks
    generalize hslot : looked.slot (globalId ext) = slot at hcall htracks hused
    cases slot with
    | none => exact absurd rfl hused
    | cookie n =>
      cases hcall
      have hreply : dies = false → (if dies then none else answer n) = answer n := by
        rintro rfl
        rfl
      refine ⟨hlooked'.force hpos hinj hidx hslot hreply, ⟨hextends.queries, fun j hj => ?_, ?_⟩,
        fun hlive => ⟨n, htracks, hreply hlive⟩⟩
      · exact (slot_set hpos hidx j).trans ((if_neg hj).trans (hextends.others j hj))
      · have hbefore := hextends.before
        rw [hslot] at hbefore
        refine LazyReply.Before.trans hbefore (.inr ⟨_, (slot_set hpos hidx _).trans (if_pos rfl)⟩)
    | forced r =>
      cases hcall
      obtain ⟨n, hn, hreply⟩ := htracks
      exact ⟨hlooked', ⟨hextends.queries, hextends.others, hextends.before⟩,
        fun hlive => ⟨n, hn, hreply hlive⟩⟩

end calls

end ExtConnection

/-- The numbers of the records, the connections, and what `xcb_get_extension_data` returned on a
connection that was in order. -/
structure Extensions (ε κ : Type) where
  globalId : ε → ℕ
  nextGlobalId : ℕ
  conns : κ → ExtConnection ε
  returned : List (κ × ε × Option QueryExtensionReply)

namespace Extensions

variable {ε κ : Type} [DecidableEq ε] [DecidableEq κ]

def init : Extensions ε κ := ⟨fun _ => 0, 0, fun _ => .init, []⟩

/-- The slot of a record. -/
def slot (s : Extensions ε κ) (c : κ) (ext : ε) : LazyReply := (s.conns c).slot (s.globalId ext)

/-- `if(!ext->global_id) ext->global_id = ++next_global_id` -/
def number (s : Extensions ε κ) (ext : ε) : Extensions ε κ :=
  if s.globalId ext = 0 then
    { s with
      globalId := Function.update s.globalId ext (s.nextGlobalId + 1)
      nextGlobalId := s.nextGlobalId + 1 }
  else s

def setConn (s : Extensions ε κ) (c : κ) (conn : ExtConnection ε) : Extensions ε κ :=
  { s with conns := Function.update s.conns c conn }

inductive Action (ε κ : Type)
  | getExtensionData (c : κ) (ext : ε) (dies : Bool)
  | prefetchExtensionData (c : κ) (ext : ε) (dies : Bool)
  /-- The connection breaks. -/
  | fail (c : κ)

/-- One call. On a connection with an error nothing happens. -/
def step (name : ε → String) (answer : κ → ℕ → Option QueryExtensionReply) (s : Extensions ε κ) :
    Action ε κ → Option (Extensions ε κ)
  | .getExtensionData c ext dies =>
    if (s.conns c).hasError then some s
    else
      let s := s.number ext
      ((s.conns c).getExtensionData (s.globalId ext) ext (name ext) (answer c) dies).map
        fun (conn, reply) =>
          { s.setConn c conn with
            returned := if conn.hasError then s.returned else s.returned ++ [(c, ext, reply)] }
  | .prefetchExtensionData c ext dies =>
    if (s.conns c).hasError then some s
    else
      let s := s.number ext
      ((s.conns c).prefetchExtensionData (s.globalId ext) ext (name ext) dies).map (s.setConn c)
  | .fail c => some (s.setConn c { s.conns c with hasError := true })

/-! ### All connections -/

variable {name : ε → String} {answer : κ → ℕ → Option QueryExtensionReply} {s t : Extensions ε κ}
  {c : κ} {ext : ε}

/-- The numbers of the records are different, and every connection keeps one slot for each. -/
structure Consistent (name : ε → String) (answer : κ → ℕ → Option QueryExtensionReply)
    (s : Extensions ε κ) : Prop where
  le : ∀ ext, s.globalId ext ≤ s.nextGlobalId
  inj : ∀ ext, s.globalId ext ≠ 0 → ∀ e, s.globalId e = s.globalId ext → e = ext
  unused : ∀ c idx, s.nextGlobalId < idx → (s.conns c).slot idx = .none
  caches : ∀ c, (s.conns c).Caches name (answer c) s.globalId
  returned : ∀ r ∈ s.returned, ∃ n, (s.conns r.1).queries[n]? = some (r.2.1, name r.2.1) ∧
    r.2.2 = answer r.1 n

omit [DecidableEq ε] [DecidableEq κ] in
theorem consistent_init : Consistent name answer (init : Extensions ε κ) where
  le _ := Nat.le_refl 0
  inj _ hne := absurd rfl hne
  unused c idx _ := by
    show ExtConnection.slot .init idx = .none
    rw [ExtConnection.slot]
    split <;> rfl
  caches _ := ⟨nofun, fun _ => nofun⟩
  returned := nofun

omit [DecidableEq κ] in
/-- A new number belongs to a slot that nobody has used. -/
theorem Consistent.number (h : Consistent name answer s) (ext : ε) :
    Consistent name answer (s.number ext) ∧ (s.number ext).globalId ext ≠ 0 ∧
      ∀ c e, (s.number ext).slot c e = s.slot c e := by
  rw [Extensions.number]
  split
  · next hzero =>
    have hself : Function.update s.globalId ext (s.nextGlobalId + 1) ext = s.nextGlobalId + 1 :=
      Function.update_self ext _ _
    have hother : ∀ e, e ≠ ext →
        Function.update s.globalId ext (s.nextGlobalId + 1) e = s.globalId e :=
      fun e he => Function.update_of_ne he _ _
    have hslot : ∀ c e, (s.conns c).slot (Function.update s.globalId ext (s.nextGlobalId + 1) e) =
        (s.conns c).slot (s.globalId e) := by
      intro c e
      by_cases he : e = ext
      · subst he
        rw [hself, hzero, h.unused c _ (Nat.lt_succ_self _)]
        rfl
      · rw [hother e he]
    refine ⟨⟨fun e => ?_, fun e hne e' heq => ?_, fun c idx hlt => h.unused c idx ?_, fun c => ?_,
      h.returned⟩, ?_, hslot⟩
    · show Function.update s.globalId ext (s.nextGlobalId + 1) e ≤ s.nextGlobalId + 1
      by_cases he : e = ext
      · rw [he, hself]
      · rw [hother e he]
        exact (h.le e).trans (Nat.le_succ _)
    · change Function.update s.globalId ext (s.nextGlobalId + 1) e ≠ 0 at hne
      change Function.update s.globalId ext (s.nextGlobalId + 1) e' =
        Function.update s.globalId ext (s.nextGlobalId + 1) e at heq
      have hle := h.le e
      have hle' := h.le e'
      by_cases he : e = ext
      · by_cases he' : e' = ext
        · rw [he, he']
        · rw [he, hself, hother e' he'] at heq
          omega
      · rw [hother e he] at hne heq
        by_cases he' : e' = ext
        · rw [he', hself] at heq
          omega
        · rw [hother e' he'] at heq
          exact h.inj e hne e' heq
    · exact Nat.lt_of_succ_lt hlt
    · exact ⟨(h.caches c).own, fun e => hslot c e ▸ (h.caches c).tracks e⟩
    · show Function.update s.globalId ext (s.nextGlobalId + 1) ext ≠ 0
      rw [hself]
      exact Nat.succ_ne_zero _
  · next hne => exact ⟨h, hne, fun _ _ => rfl⟩

omit [DecidableEq ε] in
theorem conns_setConn_self (s : Extensions ε κ) (c : κ) (conn : ExtConnection ε) :
    (s.setConn c conn).conns c = conn := by
  simp [Extensions.setConn]

omit [DecidableEq ε] in
theorem conns_setConn_of_ne (s : Extensions ε κ) (conn : ExtConnection ε) {c' : κ} (h : c' ≠ c) :
    (s.setConn c conn).conns c' = s.conns c' := by
  simp [Extensions.setConn, h]

omit [DecidableEq ε] in
/-- A call on one connection. -/
theorem Consistent.setConn (h : Consistent name answer s) {conn : ExtConnection ε} {k : ℕ}
    (hk : k ≤ s.nextGlobalId) (hcaches : conn.Caches name (answer c) s.globalId)
    (hextends : ExtConnection.Extends k (s.conns c) conn) :
    Consistent name answer (s.setConn c conn) := by
  have hself : (s.setConn c conn).conns c = conn := conns_setConn_self s c conn
  have hother : ∀ c', c' ≠ c → (s.setConn c conn).conns c' = s.conns c' :=
    fun c' hc => conns_setConn_of_ne s conn hc
  refine ⟨h.le, h.inj, fun c' idx hlt => ?_, fun c' => ?_, fun r hr => ?_⟩
  · by_cases hc : c' = c
    · rw [hc, hself, hextends.others idx (hk.trans_lt hlt).ne']
      exact h.unused c idx hlt
    · rw [hother c' hc]
      exact h.unused c' idx hlt
  · by_cases hc : c' = c
    · rw [hc, hself]
      exact hcaches
    · rw [hother c' hc]
      exact h.caches c'
  · obtain ⟨n, hn, hreply⟩ := h.returned r hr
    by_cases hc : r.1 = c
    · refine ⟨n, ?_, hreply⟩
      rw [hc, hself]
      rw [hc] at hn
      obtain ⟨rest, hrest⟩ := hextends.queries
      rw [← hrest, List.getElem?_append_left (List.getElem?_eq_some_iff.mp hn).1, hn]
    · exact ⟨n, by rw [hother r.1 hc, hn], hreply⟩

/-- The connection and the record a call is for. -/
def Action.target : Action ε κ → Option (κ × ε)
  | .getExtensionData c ext _ => some (c, ext)
  | .prefetchExtensionData c ext _ => some (c, ext)
  | .fail _ => none

/-- No slot is lost or reset, and none but the one of the call is touched. -/
structure KeepsSlots (target : Option (κ × ε)) (s t : Extensions ε κ) : Prop where
  before : ∀ c ext, (s.slot c ext).Before (t.slot c ext)
  others : ∀ c ext, target ≠ some (c, ext) → t.slot c ext = s.slot c ext

omit [DecidableEq ε] in
theorem Consistent.keepsSlots (h : Consistent name answer s) (hid : s.globalId ext ≠ 0)
    {conn : ExtConnection ε}
    (hextends : ExtConnection.Extends (s.globalId ext) (s.conns c) conn) :
    KeepsSlots (some (c, ext)) s (s.setConn c conn) := by
  have hslot : ∀ c' e, c' ≠ c ∨ e ≠ ext → (s.setConn c conn).slot c' e = s.slot c' e := by
    intro c' e hne
    show ((s.setConn c conn).conns c').slot (s.globalId e) = _
    by_cases hc : c' = c
    · subst hc
      have he : s.globalId e ≠ s.globalId ext := fun heq =>
        hne.elim (absurd rfl) fun hne => hne (h.inj ext hid e heq)
      rw [conns_setConn_self, hextends.others _ he]
      rfl
    · rw [conns_setConn_of_ne s conn hc]
      rfl
  refine ⟨fun c' e => ?_, fun c' e hne => hslot c' e ?_⟩
  · by_cases hce : c' = c ∧ e = ext
    · obtain ⟨rfl, rfl⟩ := hce
      show (s.slot c' e).Before (((s.setConn c' conn).conns c').slot (s.globalId e))
      rw [conns_setConn_self]
      exact hextends.before
    · rw [hslot c' e (not_and_or.mp hce)]
      exact .refl _
  · by_contra hboth
    obtain ⟨hc, he⟩ := not_or.mp hboth
    exact hne (by rw [not_not.mp hc, not_not.mp he])

omit [DecidableEq ε] [DecidableEq κ] in
theorem KeepsSlots.refl (target : Option (κ × ε)) (s : Extensions ε κ) : KeepsSlots target s s :=
  ⟨fun _ _ => .refl _, fun _ _ _ => rfl⟩

omit [DecidableEq κ] in
/-- Numbering changes no slot. -/
theorem KeepsSlots.of_number {target : Option (κ × ε)} (h : KeepsSlots target (s.number ext) t)
    (hslot : ∀ c e, (s.number ext).slot c e = s.slot c e) : KeepsSlots target s t :=
  ⟨fun c e => hslot c e ▸ h.before c e, fun c e hne => (h.others c e hne).trans (hslot c e)⟩

omit [DecidableEq ε] in
/-- A connection that breaks keeps its slots. -/
theorem Consistent.fail (h : Consistent name answer s) (c : κ) :
    Consistent name answer (s.setConn c { s.conns c with hasError := true }) ∧
      KeepsSlots none s (s.setConn c { s.conns c with hasError := true }) := by
  have hcaches : ExtConnection.Caches name (answer c) s.globalId
      { s.conns c with hasError := true } :=
    ⟨(h.caches c).own, fun e => ((h.caches c).tracks e).congr rfl nofun⟩
  have hslot : ∀ c' e,
      (s.setConn c { s.conns c with hasError := true }).slot c' e = s.slot c' e := by
    intro c' e
    show ((s.setConn c _).conns c').slot (s.globalId e) = _
    by_cases hc : c' = c
    · subst hc
      rw [conns_setConn_self]
      rfl
    · rw [conns_setConn_of_ne s _ hc]
      rfl
  exact ⟨h.setConn (Nat.zero_le _) hcaches ⟨List.prefix_refl _, fun _ _ => rfl, .refl _⟩,
    fun c' e => hslot c' e ▸ .refl _, fun c' e _ => hslot c' e⟩

/-- **A call** keeps all this. -/
theorem Consistent.step {a : Action ε κ} (h : Consistent name answer s)
    (hstep : Extensions.step name answer s a = some t) :
    Consistent name answer t ∧ KeepsSlots a.target s t := by
  cases a with
  | getExtensionData c ext dies =>
    rw [Extensions.step] at hstep
    split at hstep
    · cases hstep
      exact ⟨h, .refl _ _⟩
    · obtain ⟨hnumbered, hid, hslot⟩ := h.number ext
      obtain ⟨⟨conn, reply⟩, hcall, rfl⟩ := Option.map_eq_some_iff.mp hstep
      obtain ⟨hcaches, hextends, hreply⟩ :=
        (hnumbered.caches c).getExtensionData hid (hnumbered.inj ext hid) hcall
      have hset := hnumbered.setConn (hnumbered.le ext) hcaches hextends
      have hkeeps : KeepsSlots (some (c, ext)) s ((s.number ext).setConn c conn) :=
        (hnumbered.keepsSlots hid hextends).of_number hslot
      refine ⟨⟨hset.le, hset.inj, hset.unused, hset.caches, fun r hr => ?_⟩,
        hkeeps.before, hkeeps.others⟩
      dsimp only at hr
      split at hr
      · exact hset.returned r hr
      · next hlive =>
        rcases List.mem_append.mp hr with hr | hr
        · exact hset.returned r hr
        · obtain rfl := List.mem_singleton.mp hr
          obtain ⟨n, hn, hanswer⟩ := hreply (Bool.eq_false_iff.mpr hlive)
          refine ⟨n, ?_, hanswer⟩
          show (((s.number ext).setConn c conn).conns c).queries[n]? = _
          rw [conns_setConn_self]
          exact hn.1
  | prefetchExtensionData c ext dies =>
    rw [Extensions.step] at hstep
    split at hstep
    · cases hstep
      exact ⟨h, .refl _ _⟩
    · obtain ⟨hnumbered, hid, hslot⟩ := h.number ext
      obtain ⟨conn, hcall, rfl⟩ := Option.map_eq_some_iff.mp hstep
      obtain ⟨hcaches, hextends⟩ :=
        (hnumbered.caches c).prefetchExtensionData hid (hnumbered.inj ext hid) hcall
      exact ⟨hnumbered.setConn (hnumbered.le ext) hcaches hextends,
        (hnumbered.keepsSlots hid hextends).of_number hslot⟩
  | fail c =>
    cases hstep
    exact h.fail c

/-- One query for a record, and a call for it returns the reply to that query. -/
structure Cached (name : ε → String) (answer : κ → ℕ → Option QueryExtensionReply)
    (s : Extensions ε κ) : Prop where
  once : ∀ c ext, ((s.conns c).queries.map Prod.fst).count ext ≤ 1
  own : ∀ c, ∀ q ∈ (s.conns c).queries, q.2 = name q.1
  returned : ∀ r ∈ s.returned, ∃ n, (s.conns r.1).queries[n]? = some (r.2.1, name r.2.1) ∧
    r.2.2 = answer r.1 n

omit [DecidableEq κ] in
theorem Consistent.cached (h : Consistent name answer s) : Cached name answer s := by
  refine ⟨fun c ext => ?_, fun c => (h.caches c).own, h.returned⟩
  have hasked : ∀ n, (s.conns c).AskedAt name ext n →
      ((s.conns c).queries.map Prod.fst).count ext ≤ 1 := by
    rintro n ⟨-, hunique⟩
    by_contra htwice
    obtain ⟨i, j, hlt, hi, hj⟩ := List.duplicate_iff_exists_distinct_get.mp
      (List.duplicate_iff_two_le_count.mpr (Nat.not_le.mp htwice))
    have hquery : ∀ k : Fin ((s.conns c).queries.map Prod.fst).length,
        ext = ((s.conns c).queries.map Prod.fst).get k → k.val = n := by
      intro k hk
      have hlt : k.val < (s.conns c).queries.length := by simpa using k.isLt
      refine hunique k _ (List.getElem?_eq_getElem hlt) ?_
      simpa using hk.symm
    exact absurd ((hquery i hi).trans (hquery j hj).symm) (Fin.lt_def.mp hlt).ne
  have htracks := (h.caches c).tracks ext
  cases hslot : (s.conns c).slot (s.globalId ext) with
  | none =>
    rw [hslot] at htracks
    rw [List.count_eq_zero_of_not_mem fun hmem => ?_]
    · exact Nat.zero_le 1
    · obtain ⟨q, hq, heq⟩ := List.mem_map.mp hmem
      exact htracks q hq heq
  | cookie n =>
    rw [hslot] at htracks
    exact hasked n htracks
  | forced reply =>
    rw [hslot] at htracks
    obtain ⟨n, hn, -⟩ := htracks
    exact hasked n hn

/-- **Lookups are cached per extension**, on every connection and in every order of calls, and no
call loses, resets or touches the slot of another record. -/
theorem cached_of_reach
    (h : Transition.Reach (Extensions.step name answer) (fun _ _ => True) init s) :
    Cached name answer s ∧
      ∀ a t, Extensions.step name answer s a = some t → KeepsSlots a.target s t := by
  have hconsistent : Consistent name answer s :=
    h.invariant (fun _ _ _ hs _ hstep => (hs.step hstep).1) consistent_init
  exact ⟨hconsistent.cached, fun a t hstep => (hconsistent.step hstep).2⟩

/-- Two connections and two records, used in different orders. -/
theorem cached_calls : ∃ s : Extensions Bool Bool,
    s.returned = [(true, true, some ⟨true, 133⟩), (false, true, some ⟨true, 129⟩),
      (true, true, some ⟨true, 133⟩)] ∧
      Cached (fun ext => if ext then "RENDER" else "SHAPE")
        (fun c _ => some ⟨true, if c then 133 else 129⟩) s :=
  ⟨_, rfl, (cached_of_reach (Transition.Reach.of_foldlM (fun _ _ _ => trivial)
    (show List.foldlM (Extensions.step (fun ext => if ext then "RENDER" else "SHAPE")
        (fun c _ => some ⟨true, if c then 133 else 129⟩)) (init : Extensions Bool Bool)
        [.prefetchExtensionData false false false, .getExtensionData true true false,
          .getExtensionData false true false, .getExtensionData true true false] = some _
      from rfl))).1⟩

end Extensions

end Xcb
