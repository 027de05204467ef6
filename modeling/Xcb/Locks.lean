import Mathlib.Data.Fintype.EquivFin
import Mathlib.Order.Lattice
import Xcb.Internal.Locking

/-!
# The mutexes of a connection

`c->xid.lock`, `c->out.reqlenlock` and `c->ext.lock` are held while requests are sent and replies
waited for, so that the functions of `xcb_xid.c`, `xcb_out.c` and `xcb_ext.c` call each other, and
`xcb_send_request`, with locks held. They take the locks in one order, with one exception: a request
that is longer than the connection setup allows asks for the maximum of BIG-REQUESTS, and the answer
to that may need a `QueryExtension`. When the `QueryExtension` itself is too long, the thread waits
for a lock that it holds.

What is modelled of each function are the locks it takes and the functions it calls. Branches on
what other threads can change are left open. `pthread_cond_wait`, `poll` and the `return_socket`
callback give `iolock` up and take it again; what a thread waits for there is in `Xcb.Sleep` and
`Xcb.ReaderRole`. The callback may call `xcb_writev`.

## Main definitions

* `Mutex` — the locks
* `Limits` — how long requests are, and may be
* `Limits.body` — what each function does to locks

## Main results

* `Limits.ranked_body` — the order, one function at a time
* `Limits.jams_getExtensionData` — a `QueryExtension` that does not fit
* `Limits.orderly_iff` — the locks are in order if and only if each `QueryExtension` fits
-/

namespace Xcb

open Locking

/-- The mutexes, in the order in which they are taken. `global_lock` is the one of all
connections. -/
inductive Mutex
  | xidLock
  | reqlenlock
  | extLock
  | globalLock
  | iolock

namespace Mutex

def rank : Mutex → Fin 5
  | xidLock => 0
  | reqlenlock => 1
  | extLock => 2
  | globalLock => 3
  | iolock => 4

theorem rank_injective : Function.Injective rank := by
  intro l m h
  cases l <;> cases m <;> first | rfl | cases h

instance : LinearOrder Mutex := LinearOrder.lift' rank rank_injective

theorem le_iff (l m : Mutex) : l ≤ m ↔ l.rank ≤ m.rank := .rfl

theorem lt_iff (l m : Mutex) : l < m ↔ l.rank < m.rank := .rfl

instance : Finite Mutex := Finite.of_injective rank rank_injective

end Mutex

variable {ε : Type}

/-- The functions that take locks or call such. `ε` are the extension records. -/
inductive Fn (ε : Type)
  | generateId
  | getXidRange
  | prefetchMaximumRequestLength
  | getMaximumRequestLength
  | bigRequestsEnable
  | getExtensionData (ext : ε)
  | prefetchExtensionData (ext : ε)
  | getLazyreply (ext : ε)
  | queryExtension (ext : ε)
  /-- A request of this many words. -/
  | sendRequest (words : ℕ) (ext : Option ε) (raw : Bool)
  | takeSocket
  | writev
  | flush
  | waitForReply
  | pollForReply
  | discardReply
  | requestCheck
  | waitForEvent
  | pollForEvent

/-- `c->setup->maximum_request_length`, how many words the generated requests have that XCB sends
itself, and the records that it uses: a `QueryExtension` for a record, the `Enable` of BIG-REQUESTS,
the `GetXIDRange` of XC-MISC, and the `GetInputFocus` of `xcb_request_check`. -/
structure Limits (ε : Type) where
  maximum : ℕ
  queryWords : ε → ℕ
  enableWords : ℕ
  xidRangeWords : ℕ
  inputFocusWords : ℕ
  bigRequests : ε
  xcMisc : ε

namespace Limits

open Code

/-! ### The functions -/

/-- `get_socket_back`, with an owner that calls `xcb_writev` from its callback. -/
def getSocketBack : Code Mutex (Fn ε) :=
  block [waits .iolock, opt (block [unlock .iolock, loop (call .writev), lock .iolock])]

/-- `xcb_send_request`, from where it takes `iolock`. -/
def sendLocked : Code Mutex (Fn ε) :=
  block [lock .iolock, waits .iolock, getSocketBack, waits .iolock, unlock .iolock]

variable (r : Limits ε)

/-- `xcb_send_request`, from where the extension is known to be there. -/
def sendPresent (words : ℕ) : Code Mutex (Fn ε) :=
  if words ≤ r.maximum then sendLocked
  else seq (call .getMaximumRequestLength) (opt sendLocked)

/-- `xcb_send_request` -/
def sendRequest (words : ℕ) (ext : Option ε) (raw : Bool) : Code Mutex (Fn ε) :=
  opt <|
    if raw then sendLocked
    else match ext with
      | none => r.sendPresent words
      | some ext => seq (call (.getExtensionData ext)) (opt (r.sendPresent words))

/-- What each function does. A function that returns at once on a connection in error is an
`opt`. -/
def body : Fn ε → Code Mutex (Fn ε)
  | .generateId =>
    opt (block [lock .xidLock,
      opt (seq (call (.getExtensionData r.xcMisc))
        (opt (seq (call .getXidRange) (call .waitForReply)))),
      unlock .xidLock])
  | .getXidRange => call (.sendRequest r.xidRangeWords (some r.xcMisc) false)
  | .prefetchMaximumRequestLength =>
    opt (block [lock .reqlenlock,
      opt (seq (call (.getExtensionData r.bigRequests)) (opt (call .bigRequestsEnable))),
      unlock .reqlenlock])
  | .getMaximumRequestLength =>
    opt (block [call .prefetchMaximumRequestLength, lock .reqlenlock, opt (call .waitForReply),
      unlock .reqlenlock])
  | .bigRequestsEnable => call (.sendRequest r.enableWords (some r.bigRequests) false)
  | .getExtensionData ext =>
    opt (block [lock .extLock, call (.getLazyreply ext), opt (call .waitForReply), unlock .extLock])
  | .prefetchExtensionData ext =>
    opt (block [lock .extLock, call (.getLazyreply ext), unlock .extLock])
  | .getLazyreply ext =>
    block [lock .globalLock, unlock .globalLock, opt (call (.queryExtension ext))]
  | .queryExtension ext => call (.sendRequest (r.queryWords ext) none false)
  | .sendRequest words ext raw => r.sendRequest words ext raw
  | .takeSocket => opt (block [lock .iolock, getSocketBack, waits .iolock, unlock .iolock])
  | .writev | .flush | .waitForReply | .waitForEvent =>
    opt (block [lock .iolock, waits .iolock, unlock .iolock])
  | .pollForReply | .discardReply | .pollForEvent => opt (block [lock .iolock, unlock .iolock])
  | .requestCheck =>
    opt (seq (opt (seq (call (.sendRequest r.inputFocusWords none false)) (call .waitForReply)))
      (call .waitForReply))

/-! ### The order -/

/-- The smallest lock that a function may take, where each `QueryExtension` fits. The functions that
send other requests may ask for the maximum. -/
def floor : Fn ε → Mutex
  | .generateId => .xidLock
  | .prefetchMaximumRequestLength | .getMaximumRequestLength | .getXidRange | .requestCheck =>
    .reqlenlock
  | .bigRequestsEnable | .getExtensionData _ | .prefetchExtensionData _ => .extLock
  | .getLazyreply _ => .globalLock
  | .sendRequest words ext raw =>
    if raw then .iolock
    else if words ≤ r.maximum then (if ext.isSome then .extLock else .iolock)
    else .reqlenlock
  | _ => .iolock

/-- Each `QueryExtension` is short enough for the setup. -/
def Fits : Prop := ∀ ext, r.queryWords ext ≤ r.maximum

section after

variable {allowed : Mutex → Prop} [DecidablePred allowed]

theorem after_getSocketBack (h : allowed .iolock) :
    getSocketBack.after r.floor allowed [.iolock] = some [.iolock] := by
  simp [getSocketBack, block, opt, waits, Code.after, floor, h]

/-- With `iolock` everything is given back. -/
theorem after_sendLocked (h : allowed .iolock) :
    sendLocked.after r.floor allowed [] = some [] := by
  simp [sendLocked, block, waits, Code.after, after_getSocketBack r h, h]

theorem after_sendPresent {words : ℕ} (h : allowed .iolock)
    (hlong : r.maximum < words → allowed .reqlenlock) :
    (r.sendPresent words).after r.floor allowed [] = some [] := by
  rw [sendPresent]
  split
  · exact after_sendLocked r h
  · next hwords =>
    have hreqlen := hlong (Nat.lt_of_not_le hwords)
    simp [opt, Code.after, floor, hreqlen, after_sendLocked r h]

theorem after_sendRequest {words : ℕ} {ext : Option ε} {raw : Bool} (h : allowed .iolock)
    (hext : raw = false → ext ≠ none → allowed .extLock)
    (hlong : raw = false → r.maximum < words → allowed .reqlenlock) :
    (r.sendRequest words ext raw).after r.floor allowed [] = some [] := by
  cases raw with
  | true => simp [sendRequest, opt, Code.after, after_sendLocked r h]
  | false =>
    have hpresent := after_sendPresent r h (hlong rfl)
    cases ext with
    | none => simp [sendRequest, opt, Code.after, hpresent]
    | some ext =>
      have hlock := hext rfl (Option.some_ne_none ext)
      simp [sendRequest, opt, Code.after, floor, hlock, hpresent]

end after

/-- Every request may take `reqlenlock` and what comes after it. -/
theorem reqlenlock_le_floor_sendRequest (words : ℕ) (ext : Option ε) (raw : Bool) :
    Mutex.reqlenlock ≤ r.floor (.sendRequest words ext raw) := by
  simp only [floor]
  split_ifs <;> decide

/-- **Each function keeps to the order**, where each `QueryExtension` and the `Enable` fit. -/
theorem ranked_body (hfits : r.Fits) (henable : r.enableWords ≤ r.maximum) (f : Fn ε) :
    Ranked r.floor r.body f := by
  cases f with
  | queryExtension ext => simp [Ranked, body, floor, Code.after, hfits ext]
  | getXidRange =>
    have hfloor := r.reqlenlock_le_floor_sendRequest r.xidRangeWords (some r.xcMisc) false
    rw [Ranked, body, Code.after, if_pos ⟨hfloor, fun _ h => (List.not_mem_nil h).elim⟩]
  | requestCheck =>
    have hfloor := r.reqlenlock_le_floor_sendRequest r.inputFocusWords none false
    have hwait : Mutex.reqlenlock ≤ r.floor .waitForReply := show _ ≤ Mutex.iolock by decide
    simp only [Ranked, body, opt, Code.after, show r.floor .requestCheck = .reqlenlock from rfl,
      hfloor, hwait, List.not_mem_nil, false_imp_iff, implies_true, and_self, if_true,
      Option.bind_some]
  | sendRequest words ext raw =>
    refine after_sendRequest r ?_ (fun hraw hext => ?_) fun hraw hwords => ?_
    · cases raw <;> cases ext <;> simp only [floor] <;> split_ifs <;> decide
    · obtain ⟨ext, rfl⟩ := Option.ne_none_iff_exists'.mp hext
      by_cases hwords : words ≤ r.maximum
      · simp [floor, hraw, hwords]
      · have hlow : Mutex.reqlenlock ≤ .extLock := by decide
        simpa [floor, hraw, hwords] using hlow
    · simp [floor, hraw, Nat.not_le.mpr hwords]
  | _ =>
    simp [Ranked, body, floor, getSocketBack, opt, block, waits, Code.after, henable, Mutex.le_iff,
      Mutex.lt_iff, Mutex.rank]

/-! ### A request that is too long -/

section tooLong

variable {l : Mutex} {held : List Mutex} {k : List (Code Mutex (Fn ε))}

/-- `xcb_send_request` asks for the maximum when a request is too long. -/
theorem jams_sendRequest {words : ℕ} (hlong : r.maximum < words)
    (h : ∀ k, Jams r.body l ⟨held, call .getMaximumRequestLength :: k⟩) :
    Jams r.body l ⟨held, call (.sendRequest words none false) :: k⟩ := by
  have hbody : r.body (.sendRequest words none false) =
      opt (seq (call .getMaximumRequestLength) (opt sendLocked)) := by
    simp [body, sendRequest, sendPresent, Nat.not_le.mpr hlong]
  refine .call ?_
  rw [hbody]
  exact .opt (.seq (h _))

/-- `get_lazyreply`, when nothing is known about the extension. -/
theorem jams_getLazyreply {ext : ε} (hlong : r.maximum < r.queryWords ext)
    (hfree : .globalLock ∉ held)
    (h : ∀ k, Jams r.body l ⟨held, call .getMaximumRequestLength :: k⟩) :
    Jams r.body l ⟨held, call (.getLazyreply ext) :: k⟩ := by
  refine .call (.block (.lock hfree (.block (.unlock (.block (.opt (.call ?_)))))))
  exact jams_sendRequest r hlong h

/-- `xcb_get_maximum_request_length`, when nothing is known about BIG-REQUESTS. -/
theorem jams_getMaximumRequestLength (hfree : .reqlenlock ∉ held)
    (h : ∀ k, Jams r.body l
      ⟨.reqlenlock :: held, call (.getExtensionData r.bigRequests) :: k⟩) :
    Jams r.body l ⟨held, call .getMaximumRequestLength :: k⟩ := by
  refine .call (.opt (.block (.call (.opt (.block (.lock hfree ?_))))))
  exact .block (.opt (.seq (h _)))

/-- **A `QueryExtension` that is too long** is sent with `c->ext.lock` held, which the lookup of the
maximum takes as well. -/
theorem jams_getExtensionData {ext : ε} (hlong : r.maximum < r.queryWords ext) :
    Jams r.body .extLock ⟨[], [call (.getExtensionData ext)]⟩ := by
  refine .call (.opt (.block (.lock (by decide) (.block ?_))))
  refine jams_getLazyreply r hlong (by decide) fun k => ?_
  refine jams_getMaximumRequestLength r (by decide) fun k => ?_
  exact .call (.opt (.block (.here ⟨List.mem_cons_of_mem _ List.mem_cons_self, _, rfl⟩)))

end tooLong

/-! ### The result -/

/-- **The locks of a connection** are in order in every run if and only if each `QueryExtension` is
short enough for the connection setup. For one that is too long `xcb_get_extension_data`, called by
any thread when nobody else does anything, can come to wait for `c->ext.lock`, which it holds. The
`Enable` of BIG-REQUESTS, a single word, is no longer than a `QueryExtension`. -/
theorem orderly_iff {τ : Type} [DecidableEq τ] [Fintype τ] [Nonempty τ]
    (hwords : ∀ ext, r.enableWords ≤ r.queryWords ext) :
    ((∀ s : τ → Thread Mutex (Fn ε),
        Transition.Reach (Locking.step r.body) (fun _ _ => True) Locking.init s →
          Orderly r.body s) ↔
      ∀ ext, r.queryWords ext ≤ r.maximum) ∧
    ∀ ext, r.maximum < r.queryWords ext → ∀ t : τ, ∃ s u : τ → Thread Mutex (Fn ε),
      Locking.step r.body Locking.init (.start t (.getExtensionData ext)) = some s ∧
        Transition.Reach (Locking.step r.body) (fun _ a => a.IsRun t) s u ∧
          (u t).Stuck .extLock := by
  refine ⟨⟨fun h ext => ?_, fun hfits s hs => ?_⟩,
    fun ext hlong => exists_stuck (r.jams_getExtensionData hlong)⟩
  · by_contra hlong
    obtain ⟨t⟩ := ‹Nonempty τ›
    have hjams := r.jams_getExtensionData (Nat.lt_of_not_le hlong)
    obtain ⟨s, u, hstart, hu, hstuck⟩ := exists_stuck hjams t
    have hreach := (Transition.Reach.single trivial hstart).trans (hu.mono fun _ _ _ => trivial)
    exact hstuck.not_orderly (h u hreach)
  · have henable : r.enableWords ≤ r.maximum :=
      (hwords r.bigRequests).trans (hfits r.bigRequests)
    exact orderly_of_reach (r.ranked_body hfits henable) hs

/-- BIG-REQUESTS and XC-MISC, on a connection whose setup allows this many words. -/
def usual (maximum : ℕ) : Limits Bool where
  maximum := maximum
  queryWords ext := if ext then 4 else 5
  enableWords := 1
  xidRangeWords := 1
  inputFocusWords := 1
  bigRequests := false
  xcMisc := true

/-- With 65535 words the locks are in order, and with 4 of them the query about BIG-REQUESTS is too
long. -/
theorem orderly_usual :
    (∀ s : Fin 2 → Thread Mutex (Fn Bool),
      Transition.Reach (Locking.step (usual 65535).body) (fun _ _ => True) Locking.init s →
        Orderly (usual 65535).body s) ∧
    ∃ s u : Fin 2 → Thread Mutex (Fn Bool),
      Locking.step (usual 4).body Locking.init (.start 1 (.getExtensionData false)) = some s ∧
        Transition.Reach (Locking.step (usual 4).body) (fun _ a => a.IsRun 1) s u ∧
          (u 1).Stuck .extLock := by
  have hwords : ∀ maximum ext, (usual maximum).enableWords ≤ (usual maximum).queryWords ext :=
    fun maximum ext => by cases ext <;> simp [usual]
  have hfits : ∀ ext, (usual 65535).queryWords ext ≤ (usual 65535).maximum := fun ext => by
    cases ext <;> simp [usual]
  exact ⟨((usual 65535).orderly_iff (hwords 65535)).1.mpr hfits,
    ((usual 4).orderly_iff (hwords 4)).2 false (by decide) 1⟩

end Limits

end Xcb
