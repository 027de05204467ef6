import Xcb.PartialWrite
import Xcb.Sticky

/-!
# The output of several threads

Without handoffs there is one stream of bytes: what was written, what the thread in `poll` has still
to write, and what waits in the queue. A thread that has the queue in its vector keeps the others
from filling it again, because they wait until nobody writes. So the stream is the requests in the
order of their numbers, and what is not written is in the queue or in that vector.

## Main definitions

* `WritePhase` — who is writing
* `System.Streaming` — the invariant, within a stretch of code as well as between two
* `System.Settled` — the invariant between two stretches of code

## Main results

* `System.Streaming.outSend`, `System.Streaming.number` — the two ends of the stream
* `System.settled_step` — one stretch of code
-/

namespace Xcb

variable {τ β : Type}

/-- Who is writing: nobody, a thread in `poll`, or the thread that has the lock. -/
inductive WritePhase (τ : Type)
  | quiet
  | poll (t : τ) (vector : List Iovec)
  | held (vector : List Iovec)

theorem WritePhase.held_ne_quiet (vector : List Iovec) :
    (WritePhase.held vector : WritePhase τ) ≠ .quiet := by
  intro h
  cases h

/-- What has still to be written. -/
def WritePhase.vector : WritePhase τ → List Iovec
  | .quiet => []
  | .poll _ vector => vector
  | .held vector => vector

/-- `c->out.writing` -/
def WritePhase.writing : WritePhase τ → ℕ
  | .poll _ _ => 1
  | _ => 0

/-- An `int` can count the bytes of each part. If `p`, then there are some. -/
structure PreparedRequest.Ordinary (p : Prop) (req : PreparedRequest) : Prop where
  short : ∀ part ∈ req.parts, part.length < 2 ^ 31
  nonempty : p → req.encoding ≠ []

/-- The same for the arguments of `xcb_send_request`. -/
structure SendCall.Ordinary (p : Prop) (call : SendCall) : Prop where
  short : ∀ part ∈ call.vector, part.len < 2 ^ 31
  nonempty : p → ∃ part ∈ call.vector, part.len ≠ 0

instance [Decidable p] (call : SendCall) : Decidable (call.Ordinary p) :=
  decidable_of_iff ((∀ part ∈ call.vector, part.len < 2 ^ 31) ∧
      (p → ∃ part ∈ call.vector, part.len ≠ 0))
    ⟨fun h => ⟨h.1, h.2⟩, fun h => ⟨h.short, h.nonempty⟩⟩

/-- Opcode and length go into the first part and leave its size alone. -/
theorem lengths_of_prepare {call : SendCall} {setupMaximum : BitVec 16} {req : PreparedRequest}
    (h : call.prepare setupMaximum = some req) :
    req.parts.map List.length = call.vector.map Part.len := by
  have hmemory : (call.vector.map Part.memory).map List.length = call.vector.map Part.len := by
    rw [List.map_map]
    rfl
  simp only [SendCall.prepare] at h
  split at h
  · next hraw =>
    split at h
    · next major minor shortlen bigLength hopcodes hlengths =>
      cases h
      obtain ⟨first, rest, hvector⟩ := List.exists_cons_of_ne_nil call.count_pos
      have hfirst : 4 ≤ first.len := call.header_le hraw first (by simp [hvector])
      have hopcode : (setOpcode major minor first.memory).length = first.len :=
        length_setOpcode major minor first.memory
      show (setHeader major minor shortlen (call.vector.map Part.memory)).map List.length = _
      rw [← hmemory, hvector, List.map_cons, setHeader, List.map_cons, List.map_cons,
        length_setLength (hfirst.trans_eq hopcode.symm), hopcode, Part.length_memory]
    · cases h
  · cases h
    exact hmemory

theorem ordinary_of_prepare {call : SendCall} {setupMaximum : BitVec 16} {req : PreparedRequest}
    {p : Prop} (h : call.prepare setupMaximum = some req) (hcall : call.Ordinary p) :
    req.Ordinary p := by
  have hlengths := lengths_of_prepare h
  refine ⟨fun part hpart => ?_, fun hp hnil => ?_⟩
  · have hmem : part.length ∈ call.vector.map Part.len :=
      hlengths ▸ List.mem_map_of_mem hpart
    obtain ⟨part', hpart', hlen⟩ := List.mem_map.mp hmem
    rw [← hlen]
    exact hcall.short part' hpart'
  · obtain ⟨part, hpart, hlen⟩ := hcall.nonempty hp
    have hmem : part.len ∈ req.parts.map List.length := hlengths ▸ List.mem_map_of_mem hpart
    obtain ⟨part', hpart', hlen'⟩ := List.mem_map.mp hmem
    unfold PreparedRequest.encoding at hnil
    split at hnil
    · simp [bytes32] at hnil
    · rw [List.flatten_eq_nil_iff.mp hnil part' hpart', List.length_nil] at hlen'
      exact hlen hlen'.symm

/-- Where a thread can be without handoffs. -/
def Flusher.Streams : Flusher → Prop
  | .takeSocket _ => False
  | _ => True

def Sender.Streams : Sender → Prop
  | .writev _ => False
  | .flusher f => f.Streams
  | _ => True

def Pc.Streams (p : Prop) : Pc → Prop
  | .lock (.send req) | .awaitTurn req => req.Ordinary p
  | .lock (.takeSocket _) | .lock (.writev _ _) => False
  | .awaitSocket _ | .callback _ | .awaitWriter _ _ => False
  | .pollOut _ sender _ => sender.Streams
  | .awaitWritten f _ _ => f.Streams
  | _ => True

theorem Pc.Streams.of_isReader {p : Prop} {pc : Pc} (h : pc.isReader = true) : pc.Streams p := by
  cases pc <;> first | exact trivial | cases h

namespace System

/-- The first `n` requests have been handed to the socket completely. -/
def Handed (s : System τ β) (n : ℕ) : Prop := (s.requests.take n).flatten <+: s.socket

/-- What is known about an entry of the log: assertions hold, and what was flushed has been handed
to the socket unless the connection failed. -/
def Accounts (s : System τ β) : Entry β → Prop
  | .assertion _ holds => holds = true
  | .flushed target true => target ≤ s.requests.length ∧ (s.conn.hasError = true ∨ s.Handed target)
  | _ => True

/-- The numbers of the output half. All requests up to `written` have been handed to the socket;
those above are in the queue or in the vector that is being written. -/
structure Counted (size : ℕ) (phase : WritePhase τ) (written : ℕ) (s : System τ β) : Prop where
  request : s.conn.out.request = BitVec.ofNat 64 s.requests.length
  requestWritten : s.conn.out.requestWritten = BitVec.ofNat 64 written
  written_le : written ≤ s.requests.length
  quiet : phase = .quiet → s.requests.length ≤ written + s.conn.out.queueLen
  gap : s.requests.length ≤ written + size + 2
  waiting : ∀ t f request n, s.threads t = .awaitWritten f request n →
    request = BitVec.ofNat 64 n ∧ n ≤ s.requests.length ∧ f.last ≤ n ∧
    (phase = .quiet → n ≤ written)
  handed : s.conn.hasError = false → s.Handed written
  log : ∀ entry ∈ s.log, s.Accounts entry

/-- The stream, between two stretches of code or within one. If `p`, then the numbers are right as
well. -/
structure Streaming (p : Prop) (size : ℕ) (phase : WritePhase τ) (s : System τ β) : Prop where
  unowned : s.conn.out.returnSocket = none
  pcs : ∀ t, (s.threads t).Streams p
  pollers : ∀ t failed sender vector, s.threads t = .pollOut failed sender vector →
    phase = .poll t vector ∧ (failed = true → s.conn.hasError = true)
  polling : ∀ t vector, phase = .poll t vector →
    ∃ failed sender, s.threads t = .pollOut failed sender vector
  writing : s.conn.out.writing = phase.writing
  queue : s.conn.out.queue.length = size
  fits : s.conn.out.Fits
  empty : phase ≠ .quiet → s.conn.out.queueLen = 0
  sane : ∀ v ∈ phase.vector, v.Sane s.conn.out.queue
  stream : s.conn.hasError = false →
    s.socket ++ gather s.conn.out.queue phase.vector ++ s.conn.out.queued = s.requests.flatten
  counted : p → ∃ written, Counted size phase written s

/-- Between two stretches of code. -/
def Settled (p : Prop) (size : ℕ) (s : System τ β) : Prop :=
  ∃ phase, (∀ vector, phase ≠ .held vector) ∧ Streaming p size phase s

variable {s u : System τ β} {p : Prop} {size written n : ℕ} {phase : WritePhase τ}

/-! ### What stays true -/

theorem Handed.mono (h : s.Handed n) (hle : n ≤ s.requests.length)
    (hrequests : ∃ new, u.requests = s.requests ++ new) (hsocket : s.socket <+: u.socket) :
    u.Handed n := by
  obtain ⟨new, hnew⟩ := hrequests
  rw [Handed, hnew, List.take_append_of_le_length hle]
  exact h.trans hsocket

theorem Handed.le (h : s.Handed n) {m : ℕ} (hle : m ≤ n) : s.Handed m := by
  refine List.IsPrefix.trans ?_ h
  obtain ⟨rest, hrest⟩ := List.take_prefix_take_left hle (l := s.requests)
  rw [← hrest, List.flatten_append]
  exact List.prefix_append _ _

theorem Accounts.mono {entry : Entry β} (h : s.Accounts entry)
    (herror : s.conn.hasError = true → u.conn.hasError = true)
    (hrequests : ∃ new, u.requests = s.requests ++ new) (hsocket : s.socket <+: u.socket) :
    u.Accounts entry := by
  cases entry with
  | assertion a holds => exact h
  | flushed target ret =>
    cases ret with
    | true =>
      obtain ⟨hle, hhanded⟩ := h
      refine ⟨?_, hhanded.imp herror fun hh => hh.mono hle hrequests hsocket⟩
      obtain ⟨new, hnew⟩ := hrequests
      rw [hnew, List.length_append]
      omega
    | false => trivial
  | _ => trivial

/-- Threads have moved on, and nothing else has changed that matters for the stream. A thread waits
for another one to write only when there is one. -/
structure Moves (p : Prop) (phase : WritePhase τ) (s u : System τ β) : Prop where
  out : u.conn.out = s.conn.out
  hasError : s.conn.hasError = true → u.conn.hasError = true
  socket : u.socket = s.socket
  requests : u.requests = s.requests
  threads : ∀ t, u.threads t = s.threads t ∨ (u.threads t).Streams p ∧
    (∀ failed sender vector, u.threads t = .pollOut failed sender vector →
      phase = .poll t vector ∧ (failed = true → u.conn.hasError = true)) ∧
    (∀ vector, phase = .poll t vector →
      ∃ failed sender, u.threads t = .pollOut failed sender vector) ∧
    ∀ f request n, u.threads t = .awaitWritten f request n → phase ≠ .quiet ∧
      (p → request = BitVec.ofNat 64 n ∧ n ≤ s.requests.length ∧ f.last ≤ n)
  log : ∃ new, u.log = s.log ++ new ∧ (p → ∀ entry ∈ new, s.Accounts entry)

theorem hasError_eq_false (h : s.conn.hasError = true → u.conn.hasError = true)
    (hu : u.conn.hasError = false) : s.conn.hasError = false :=
  Bool.eq_false_iff.mpr fun hs => Bool.eq_false_iff.mp hu (h hs)

theorem Counted.moves (h : Counted size phase written s) (hp : p) (hu : Moves p phase s u) :
    Counted size phase written u where
  request := by rw [hu.out, hu.requests, h.request]
  requestWritten := by rw [hu.out, h.requestWritten]
  written_le := by rw [hu.requests]; exact h.written_le
  quiet := by rw [hu.requests, hu.out]; exact h.quiet
  gap := by rw [hu.requests]; exact h.gap
  waiting := by
    intro t f request n ht
    rw [hu.requests]
    rcases hu.threads t with hsame | ⟨-, -, -, hwait⟩
    · exact h.waiting t f request n (hsame.symm.trans ht)
    · obtain ⟨hphase, hall⟩ := hwait f request n ht
      obtain ⟨hrequest, hle, hlast⟩ := hall hp
      exact ⟨hrequest, hle, hlast, fun hquiet => absurd hquiet hphase⟩
  handed := by
    intro herror
    have := h.handed (hasError_eq_false hu.hasError herror)
    rwa [Handed, hu.requests, hu.socket]
  log := by
    obtain ⟨new, hlog, hnew⟩ := hu.log
    intro entry hentry
    have hmono : ∀ entry, s.Accounts entry → u.Accounts entry := fun entry hs =>
      hs.mono hu.hasError ⟨[], by rw [hu.requests, List.append_nil]⟩ (by rw [hu.socket])
    rw [hlog] at hentry
    rcases List.mem_append.mp hentry with hmem | hmem
    · exact hmono entry (h.log entry hmem)
    · exact hmono entry (hnew hp entry hmem)

theorem Streaming.moves (h : Streaming p size phase s) (hu : Moves p phase s u) :
    Streaming p size phase u where
  unowned := by rw [hu.out, h.unowned]
  pcs := fun t => by
    rcases hu.threads t with hsame | ⟨hpc, -, -, -⟩
    · rw [hsame]
      exact h.pcs t
    · exact hpc
  pollers := fun t failed sender vector ht => by
    rcases hu.threads t with hsame | ⟨-, hpoll, -, -⟩
    · exact (h.pollers t failed sender vector (hsame.symm.trans ht)).imp_right (hu.hasError ∘ ·)
    · exact hpoll failed sender vector ht
  polling := fun t vector hphase => by
    rcases hu.threads t with hsame | ⟨-, -, hkeep, -⟩
    · rw [hsame]
      exact h.polling t vector hphase
    · exact hkeep vector hphase
  writing := by rw [hu.out, h.writing]
  queue := by rw [hu.out, h.queue]
  fits := by rw [hu.out]; exact h.fits
  empty := by rw [hu.out]; exact h.empty
  sane := by rw [hu.out]; exact h.sane
  stream := fun herror => by
    rw [hu.socket, hu.out, hu.requests]
    exact h.stream (hasError_eq_false hu.hasError herror)
  counted := fun hp => by
    obtain ⟨written, hc⟩ := h.counted hp
    exact ⟨written, hc.moves hp hu⟩

/-- Only what is read changes. -/
theorem Moves.of_reads (h : Reads s u) : Moves p phase s u where
  out := h.out
  hasError := h.hasError
  socket := h.socket
  requests := h.requests
  threads := fun t => .inl (by rw [h.threads])
  log := ⟨[], by rw [h.log, List.append_nil], fun _ => nofun⟩

theorem Moves.of_serves {t : τ} (hself : ∀ vector, phase ≠ .poll t vector) (h : Serves t s u) :
    Moves p phase s u where
  out := h.out
  hasError := h.hasError
  socket := h.socket
  requests := h.requests
  threads := fun v => by
    by_cases hv : v = t
    · have hpc := h.pc
      rw [← hv] at hpc
      rw [← hv] at hself
      refine .inr ⟨.of_isReader hpc, fun _ _ _ hpoll => ?_, fun w hw => absurd hw (hself w),
        fun _ _ _ hwait => ?_⟩
      · rw [hpoll] at hpc
        cases hpc
      · rw [hwait] at hpc
        cases hpc
    · exact .inl (h.threads v hv)
  log := by
    obtain ⟨new, hlog, hread⟩ := h.log
    refine ⟨new, hlog, fun _ entry hentry => ?_⟩
    have := hread entry hentry
    cases entry <;> first | exact trivial | cases this

theorem Moves.note {entry : Entry β} (h : p → s.Accounts entry) :
    Moves p phase s (s.note entry) where
  out := rfl
  hasError := id
  socket := rfl
  requests := rfl
  threads := fun _ => .inl rfl
  log := ⟨[entry], rfl, fun hp _ hmem => by rw [List.mem_singleton.mp hmem]; exact h hp⟩

theorem Moves.check {a : QueueAssertion} {q : Prop} [Decidable q] (h : p → q) :
    Moves p phase s (s.check a q) :=
  .note fun hp => decide_eq_true (h hp)

variable [DecidableEq τ] {t : τ}

theorem Moves.setPc {pc : Pc} (hpc : pc.Streams p)
    (hpoll : ∀ failed sender vector, pc = .pollOut failed sender vector →
      phase = .poll t vector ∧ (failed = true → s.conn.hasError = true))
    (hkeep : ∀ vector, phase = .poll t vector → ∃ failed sender, pc = .pollOut failed sender vector)
    (hwait : ∀ f request n, pc = .awaitWritten f request n → phase ≠ .quiet ∧
      (p → request = BitVec.ofNat 64 n ∧ n ≤ s.requests.length ∧ f.last ≤ n)) :
    Moves p phase s (s.setPc t pc) where
  out := rfl
  hasError := id
  socket := rfl
  requests := rfl
  threads := fun v => by
    by_cases hv : v = t
    · subst hv
      rw [threads_setPc_self]
      exact .inr ⟨hpc, hpoll, hkeep, hwait⟩
    · exact .inl (threads_setPc_of_ne s hv pc)
  log := ⟨[], (List.append_nil _).symm, fun _ => nofun⟩

/-- Another thread may have to write, but this one does not. -/
theorem Moves.idle (hself : ∀ vector, phase ≠ .poll t vector) : Moves p phase s (s.setPc t .idle) :=
  .setPc trivial nofun (fun vector hphase => absurd hphase (hself vector)) nofun

theorem Streaming.leave (h : Streaming p size phase s) (hself : ∀ vector, phase ≠ .poll t vector)
    {entry : Entry β} (hentry : p → s.Accounts entry) :
    Streaming p size phase (s.leave t entry) := by
  have hidle : Moves p phase s (s.setPc t .idle) := .idle hself
  exact (h.moves hidle).moves (.note fun hp => hentry hp)

/-! ### One function after the other -/

omit [DecidableEq τ] in
theorem Streaming.settled (h : Streaming p size phase s) (hheld : ∀ vector, phase ≠ .held vector) :
    Settled p size s :=
  ⟨phase, hheld, h⟩

section functions

variable {e : Env τ β} {f : Flusher} {sender : Sender} {vector : List Iovec} {req : PreparedRequest}

theorem Streaming.afterFlush (h : Streaming p size phase s)
    (hself : ∀ vector, phase ≠ .poll t vector) (hf : f.Streams)
    (hlast : f.last ≤ s.requests.length) {ret : Bool}
    (hret : p → ret = true → s.conn.hasError = true ∨ s.Handed f.last) :
    Streaming p size phase (s.afterFlush e t f ret) := by
  cases f with
  | flush target =>
    refine h.leave hself fun hp => ?_
    cases ret with
    | true => exact ⟨hlast, hret hp rfl⟩
    | false => trivial
  | takeSocket flags => exact hf.elim
  | waitForReply request =>
    cases ret with
    | true => exact h.moves (.of_serves hself (serves_startReply s e t request))
    | false => exact (h.moves (.of_reads (reads_wakeUpNextReader s e))).leave hself fun _ => trivial

omit [DecidableEq τ] in
theorem Streaming.shutdown (h : Streaming p size phase s) : Streaming p size phase s.shutdown :=
  h.moves (.of_reads (reads_shutdown s))

theorem Streaming.afterSend (h : Streaming p size phase s)
    (hself : ∀ vector, phase ≠ .poll t vector) (hsender : sender.Streams)
    (hlast : sender.last ≤ s.requests.length) {ret : Bool}
    (hret : p → ret = true → s.conn.hasError = true ∨ s.Handed sender.last) :
    Streaming p size phase (s.afterSend e t sender ret) := by
  cases sender with
  | send number last =>
    cases ret with
    | true => exact h.leave hself fun _ => trivial
    | false => exact h.shutdown.leave hself fun _ => trivial
  | writev last => exact hsender.elim
  | flusher f => exact h.afterFlush hself hsender hlast hret

/-- The thread that has something to write begins to poll. -/
theorem Streaming.waitWrite (h : Streaming p size (.held vector) s) (hsender : sender.Streams) :
    Streaming p size (.poll t vector) (s.waitWrite t sender vector) := by
  have hwriting : s.conn.out.writing = 0 := h.writing
  rw [System.waitWrite, if_neg (not_not.mpr hwriting)]
  refine ⟨h.unowned,
    forall_setPc (P := fun _ pc => pc.Streams p) s hsender fun v _ => h.pcs v,
    fun v failed sender' w hv => ?_, fun v w hphase => ?_, ?_, h.queue, h.fits,
    fun _ => h.empty nofun, h.sane, h.stream, fun hp => ?_⟩
  · by_cases hvt : v = t
    · rw [hvt, threads_setPc_self] at hv
      cases hv
      exact ⟨by rw [hvt], nofun⟩
    · rw [threads_setPc_of_ne _ hvt] at hv
      exact absurd (h.pollers v failed sender' w hv).1 nofun
  · cases hphase
    exact ⟨false, sender, threads_setPc_self _ _ _⟩
  · show s.conn.out.writing + 1 = 1
    rw [hwriting]
  · obtain ⟨written, hc⟩ := h.counted hp
    refine ⟨written, hc.request, hc.requestWritten, hc.written_le, nofun, hc.gap,
      fun v f request n hv => ?_, hc.handed, hc.log⟩
    have hne : v ≠ t := by
      rintro rfl
      rw [threads_setPc_self] at hv
      cases hv
    rw [threads_setPc_of_ne _ hne] at hv
    obtain ⟨hrequest, hle, hlast, -⟩ := hc.waiting v f request n hv
    exact ⟨hrequest, hle, hlast, nofun⟩

omit [DecidableEq τ] in
/-- When the vector is written, everything is. -/
theorem Streaming.handed (h : Streaming p size (.held []) s) (herror : s.conn.hasError = false)
    (n : ℕ) : s.Handed n := by
  have hstream := h.stream herror
  rw [WritePhase.vector, gather_nil, XcbOut.queued, h.empty (WritePhase.held_ne_quiet []),
    List.take_zero] at hstream
  rw [Handed, show s.socket = s.requests.flatten by simpa using hstream]
  obtain ⟨rest, hrest⟩ := List.take_prefix n s.requests
  exact ⟨rest.flatten, by rw [← List.flatten_append, hrest]⟩

omit [DecidableEq τ] in
/-- The end of `_xcb_out_send`: everything is written, or the connection has failed. -/
theorem Streaming.endSend (h : Streaming p size (.held vector) s)
    (hdone : s.conn.hasError = false → vector = []) :
    Streaming p size .quiet
      (s.setOut { s.conn.out with requestWritten := s.conn.out.request }) := by
  refine ⟨h.unowned, h.pcs, fun v failed sender w hv => ?_, nofun, h.writing, h.queue, h.fits,
    nofun,
    nofun, fun herror => ?_, fun hp => ?_⟩
  · exact absurd (h.pollers v failed sender w hv).1 nofun
  · rw [hdone herror] at h
    exact h.stream herror
  · obtain ⟨written, hc⟩ := h.counted hp
    refine ⟨s.requests.length, hc.request, hc.request, Nat.le_refl _, fun _ => Nat.le_add_right _ _,
      show s.requests.length ≤ s.requests.length + size + 2 by omega, fun v f request n hv => ?_,
      fun herror => ?_, hc.log⟩
    · obtain ⟨hrequest, hle, hlast, -⟩ := hc.waiting v f request n hv
      exact ⟨hrequest, hle, hlast, fun _ => hle⟩
    · rw [hdone herror] at h
      exact h.handed herror s.requests.length

theorem Streaming.outSend (h : Streaming p size (.held vector) s) (hsender : sender.Streams)
    (hlast : sender.last ≤ s.requests.length) {ret : Bool}
    (hret : ret = false → s.conn.hasError = true) :
    Settled p size (s.outSend e t sender ret vector) := by
  unfold System.outSend
  split
  · exact (h.waitWrite hsender).settled nofun
  · next hend =>
    have hdone : s.conn.hasError = false → vector = [] := by
      intro herror
      cases ret with
      | true => simpa using hend
      | false => exact absurd (hret rfl) (Bool.eq_false_iff.mp herror)
    set w := (s.setOut { s.conn.out with requestWritten := s.conn.out.request }).wakeUpNextReader e
    have hreads : Reads (s.setOut { s.conn.out with requestWritten := s.conn.out.request }) w :=
      reads_wakeUpNextReader _ e
    refine
      (((h.endSend hdone).moves (.of_reads hreads)).afterSend nofun hsender ?_
      fun _ _ => ?_).settled
      nofun
    · rw [hreads.requests]
      exact hlast
    · by_cases herror : s.conn.hasError = true
      · exact .inl (hreads.hasError herror)
      · rw [hdone (Bool.eq_false_iff.mpr herror)] at h
        have hhanded := h.handed (Bool.eq_false_iff.mpr herror) sender.last
        refine .inr ?_
        rw [Handed, hreads.requests, hreads.socket]
        exact hhanded

omit [DecidableEq τ] in
theorem requests_writeVec (s : System τ β) (vector : List Iovec) (w : WriteResult) :
    (s.writeVec vector w).1.requests = s.requests := by
  cases w <;> rfl

omit [DecidableEq τ] in
/-- Some bytes of the vector are written. -/
theorem Streaming.wrote (h : Streaming p size (.held vector) s) {rest : List Iovec}
    (hgather : gather s.conn.out.queue rest = (gather s.conn.out.queue vector).drop n)
    (hsane : ∀ v ∈ rest, v.Sane s.conn.out.queue) :
    Streaming p size (.held rest)
      { s with socket := s.socket ++ (gather s.conn.out.queue vector).take n } := by
  refine ⟨h.unowned, h.pcs, fun v failed sender w hv => ?_, nofun, h.writing, h.queue, h.fits,
    fun _ => h.empty nofun, hsane, fun herror => ?_, fun hp => ?_⟩
  · exact absurd (h.pollers v failed sender w hv).1 nofun
  · rw [WritePhase.vector, hgather, List.append_assoc s.socket, List.take_append_drop]
    exact h.stream herror
  · obtain ⟨written, hc⟩ := h.counted hp
    refine ⟨written, hc.request, hc.requestWritten, hc.written_le, nofun, hc.gap,
      fun v f request n hv => ?_, fun herror => ?_, fun entry hentry => ?_⟩
    · obtain ⟨hrequest, hle, hlast, -⟩ := hc.waiting v f request n hv
      exact ⟨hrequest, hle, hlast, nofun⟩
    · exact (hc.handed herror).trans (List.prefix_append _ _)
    · exact (hc.log entry hentry).mono id ⟨[], (List.append_nil _).symm⟩ (List.prefix_append _ _)

omit [DecidableEq τ] in
/-- `write_vec` -/
theorem Streaming.writeVec (h : Streaming p size (.held vector) s) {w : WriteResult}
    (hvalid : w.Valid (gather s.conn.out.queue vector).length) :
    Streaming p size (.held (s.writeVec vector w).2.2) (s.writeVec vector w).1 ∧
      ((s.writeVec vector w).2.1 = false → (s.writeVec vector w).1.conn.hasError = true) := by
  have hcheck : Streaming p size (.held vector)
      (s.check .writeVecQueue (s.conn.out.queueLen = 0)) :=
    h.moves (.check fun _ => h.empty nofun)
  cases w with
  | again => exact ⟨hcheck, nofun⟩
  | failed => exact ⟨hcheck.shutdown, fun _ => rfl⟩
  | wrote n =>
    obtain ⟨-, hle, hn⟩ := hvalid
    obtain ⟨hleft, hgather, hsane⟩ := gather_writeVec h.sane hn hle
    exact ⟨(hcheck.wrote hgather hsane).moves (.check fun _ => hleft), nofun⟩

/-- The thread that was in `poll` has the lock again. -/
theorem Streaming.endPoll (h : Streaming p size (.poll t vector) s) :
    Streaming p size (.held vector) (s.endWrite.endRead.setPc t .idle) := by
  have hwriting : s.conn.out.writing = 1 := h.writing
  have hheld : ∀ v f request n, (s.endWrite.endRead.setPc t .idle).threads v =
      .awaitWritten f request n → s.threads v = .awaitWritten f request n := by
    intro v f request n hv
    by_cases hvt : v = t
    · rw [hvt, threads_setPc_self] at hv
      cases hv
    · rwa [threads_setPc_of_ne _ hvt] at hv
  refine ⟨h.unowned,
    forall_setPc (P := fun _ pc => pc.Streams p) s trivial fun v _ => h.pcs v,
    fun v failed sender w hv => ?_, nofun, ?_, h.queue, h.fits, fun _ => h.empty nofun, h.sane,
    h.stream, fun hp => ?_⟩
  · by_cases hvt : v = t
    · rw [hvt, threads_setPc_self] at hv
      cases hv
    · rw [threads_setPc_of_ne _ hvt] at hv
      have := (h.pollers v failed sender w hv).1
      cases this
      exact absurd rfl hvt
  · show s.conn.out.writing - 1 = 0
    rw [hwriting]
  · obtain ⟨written, hc⟩ := h.counted hp
    refine ⟨written, hc.request, hc.requestWritten, hc.written_le, nofun, hc.gap,
      fun v f request n hv => ?_, hc.handed, hc.log⟩
    obtain ⟨hrequest, hle, hlast, -⟩ := hc.waiting v f request n (hheld v f request n hv)
    exact ⟨hrequest, hle, hlast, nofun⟩

/-- `_xcb_conn_wait` and what follows it. Whether the thread leaves `poll` before or after it reads
and writes makes no difference. -/
theorem Streaming.finishWrite (h : Streaming p size (.poll t vector) s) (hsender : sender.Streams)
    (hlast : sender.last ≤ s.requests.length) {failed : Bool}
    (hfailed : failed = true → s.conn.hasError = true)
    (hvalid : e.writev.Valid (gather s.conn.out.queue vector).length) :
    Settled p size (s.finishWrite e t failed sender vector) := by
  have hread := reads_pollRead s e failed
  have hidle := h.endPoll.moves (.of_reads (hread.leavePoll t))
  have hlast' : sender.last ≤ (s.pollRead e failed).1.requests.length := by
    rw [hread.requests]
    exact hlast
  unfold System.finishWrite pollWrite
  dsimp only
  split
  · have hcomm :
        (((s.pollRead e failed).1.writeVec vector e.writev).1.endWrite.endRead.setPc t .idle,
        ((s.pollRead e failed).1.writeVec vector e.writev).2) =
        ((s.pollRead e failed).1.endWrite.endRead.setPc t .idle).writeVec vector e.writev := by
      cases e.writev <;> rfl
    obtain ⟨hwrite, hret⟩ := hidle.writeVec (w := e.writev) (by
      show e.writev.Valid (gather (s.pollRead e failed).1.conn.out.queue vector).length
      rw [hread.out]
      exact hvalid)
    rw [← hcomm] at hwrite hret
    refine hwrite.outSend hsender ?_ hret
    show sender.last ≤ ((s.pollRead e failed).1.writeVec vector e.writev).1.requests.length
    rw [requests_writeVec]
    exact hlast'
  · exact hidle.outSend hsender hlast' (hasError_pollRead hfailed)

omit [DecidableEq τ] in
theorem Streaming.quiet_of_writing (h : Streaming p size phase s)
    (hheld : ∀ vector, phase ≠ .held vector) (hwriting : s.conn.out.writing = 0) :
    phase = .quiet := by
  rw [h.writing] at hwriting
  cases hphase : phase with
  | quiet => rfl
  | poll v vector =>
    rw [hphase] at hwriting
    cases hwriting
  | held vector => exact absurd hphase (hheld vector)

/-- The end of the wait for another thread's write. -/
theorem Streaming.awaitWritten (h : Streaming p size phase s)
    (hheld : ∀ vector, phase ≠ .held vector)
    (hself : ∀ vector, phase ≠ .poll t vector) (hf : f.Streams)
    (hlast : f.last ≤ s.requests.length) {request : BitVec 64}
    (hwait : p → request = BitVec.ofNat 64 n ∧ n ≤ s.requests.length ∧ f.last ≤ n)
    (hdone : p → phase = .quiet → ∃ written, s.conn.out.requestWritten = BitVec.ofNat 64 written ∧
      n ≤ written ∧ written < n + 2 ^ 63 ∧ (s.conn.hasError = false → s.Handed written)) :
    Settled p size (s.awaitWritten e t f request n) := by
  unfold System.awaitWritten
  split
  · next hwriting =>
    rw [h.writing] at hwriting
    have hmove : Moves p phase s (s.setPc t (.awaitWritten f request n)) := by
      refine .setPc hf (fun _ _ _ hpc => by cases hpc) (fun w hw => absurd hw (hself w))
        fun g r m hpc => ?_
      cases hpc
      exact ⟨fun hquiet => hwriting (by rw [hquiet]; rfl), hwait⟩
    exact (h.moves hmove).settled hheld
  · next hwriting =>
    rw [not_not] at hwriting
    have hquiet := h.quiet_of_writing hheld hwriting
    have hcheck : p → sequenceCompare s.conn.out.requestWritten request ≥ 0 := by
      intro hp
      obtain ⟨written, hwritten, hle, hlt, -⟩ := hdone hp hquiet
      rw [hwritten, (hwait hp).1, sequenceCompare_ofNat (by omega) hlt]
      omega
    refine ((h.moves (.check hcheck)).afterFlush hself hf hlast fun hp _ => ?_).settled hheld
    obtain ⟨written, -, hle, -, hhanded⟩ := hdone hp hquiet
    by_cases herror : s.conn.hasError = true
    · exact .inl herror
    · exact .inr ((hhanded (Bool.eq_false_iff.mpr herror)).le ((hwait hp).2.2.trans hle))

omit [DecidableEq τ] in
/-- The queue goes into the vector. -/
theorem Streaming.takeQueue (h : Streaming p size .quiet s) (hsize : size < 2 ^ 31) :
    Streaming p size (.held s.conn.out.takeQueue.2) (s.setOut s.conn.out.takeQueue.1) := by
  refine ⟨h.unowned, h.pcs, fun v failed sender w hv => ?_, fun _ _ hphase => (by cases hphase),
    h.writing, h.queue, Nat.zero_le _, fun _ => rfl, fun v hv => ?_, fun herror => ?_, fun hp => ?_⟩
  · cases (h.pollers v failed sender w hv).1
  · rw [WritePhase.vector, XcbOut.takeQueue, List.mem_singleton] at hv
    rw [hv]
    exact sane_queue h.fits (h.queue.trans_lt hsize)
  · have hstream := h.stream herror
    simpa [WritePhase.vector, XcbOut.takeQueue, bytes_queue, XcbOut.queued,
      System.setOut] using hstream
  · obtain ⟨written, hc⟩ := h.counted hp
    refine ⟨written, hc.request, hc.requestWritten, hc.written_le,
      fun hphase => absurd hphase (WritePhase.held_ne_quiet _), hc.gap,
      fun v f request n hv => ?_, hc.handed, hc.log⟩
    obtain ⟨hrequest, hle, hlast, -⟩ := hc.waiting v f request n hv
    exact ⟨hrequest, hle, hlast, fun hphase => absurd hphase (WritePhase.held_ne_quiet _)⟩

/-- `_xcb_out_flush_to`, for a request `k - 2 ^ 64`. What is below `0` was never sent. -/
theorem Streaming.flushTo (h : Streaming p size phase s) (hheld : ∀ vector, phase ≠ .held vector)
    (hself : ∀ vector, phase ≠ .poll t vector) (hsize : size < 2 ^ 31) (hf : f.Streams)
    (hlast : f.last ≤ s.requests.length)
    {request : BitVec 64} {k : ℕ} (hrequest : p → request = BitVec.ofNat 64 k)
    (hle : k ≤ s.requests.length + 2 ^ 64) (hlt : s.requests.length + 2 ^ 64 < k + 2 ^ 32)
    (hk : f.last ≤ k - 2 ^ 64) : Settled p size (s.flushTo e t f request) := by
  have hlength : ∀ m : ℕ, BitVec.ofNat 64 m = BitVec.ofNat 64 (m + 2 ^ 64) := by
    intro m
    rw [BitVec.ofNat_add]
    simp
  have hcheck : p → sequenceCompare request s.conn.out.request ≤ 0 := by
    intro hp
    obtain ⟨written, hc⟩ := h.counted hp
    rw [hrequest hp, hc.request, hlength s.requests.length,
      sequenceCompare_ofNat (by omega) (by omega)]
    omega
  have hcompare : p → ∀ written, Counted size phase written s →
      sequenceCompare s.conn.out.requestWritten request = (written + 2 ^ 64 : ℕ) - (k : ℤ) := by
    intro hp written hc
    have hgap := hc.gap
    have hwritten := hc.written_le
    rw [hc.requestWritten, hrequest hp, hlength written,
      sequenceCompare_ofNat (by omega) (by omega)]
  have hchecked := h.moves (.check (a := .flushToRequest) hcheck)
  unfold System.flushTo
  dsimp only
  split
  · next hge =>
    refine (hchecked.afterFlush hself hf hlast fun hp _ => ?_).settled hheld
    obtain ⟨written, hc⟩ := h.counted hp
    have hwritten := hcompare hp written hc
    rw [show (s.check .flushToRequest _).conn.out.requestWritten = s.conn.out.requestWritten
      from rfl, hwritten] at hge
    by_cases herror : s.conn.hasError = true
    · exact .inl herror
    · exact .inr ((hc.handed (Bool.eq_false_iff.mpr herror)).le (hk.trans (by omega)))
  · next hless =>
    split
    · next hqueue =>
      have hquiet : phase = .quiet := not_not.mp fun hphase => hqueue (h.empty hphase)
      subst hquiet
      have hsender : (Sender.flusher f).Streams := hf
      exact (hchecked.takeQueue hsize).outSend hsender hlast fun hret => by cases hret
    · next hqueue =>
      have hk' : p → ∀ written, Counted size phase written s → written + 2 ^ 64 < k := by
        intro hp written hc
        have hwritten := hcompare hp written hc
        rw [show (s.check .flushToRequest _).conn.out.requestWritten = s.conn.out.requestWritten
          from rfl, hwritten] at hless
        omega
      refine hchecked.awaitWritten hheld hself hf hlast (fun hp => ?_) fun hp hquiet => ?_
      · obtain ⟨written, hc⟩ := h.counted hp
        have hbehind := hk' hp written hc
        have hdist : (s.conn.out.request - request).toNat = s.requests.length + 2 ^ 64 - k := by
          rw [hc.request, hrequest hp, hlength s.requests.length]
          exact toNat_ofNat_sub hle (by omega)
        show request = BitVec.ofNat 64 (s.requests.length - (s.conn.out.request - request).toNat) ∧
          s.requests.length - (s.conn.out.request - request).toNat ≤ s.requests.length ∧
          f.last ≤ s.requests.length - (s.conn.out.request - request).toNat
        rw [hdist]
        refine ⟨?_, by omega, by omega⟩
        rw [hrequest hp, hlength (s.requests.length - _)]
        congr 1
        omega
      · obtain ⟨written, hc⟩ := h.counted hp
        have hbehind := hk' hp written hc
        have hquiet' := hc.quiet hquiet
        have hzero : s.conn.out.queueLen = 0 := not_not.mp hqueue
        omega

omit [DecidableEq τ] in
theorem out_numberRequest (s : System τ β) (e : Env τ β) (req : PreparedRequest) :
    (s.numberRequest e req).conn.out = { s.conn.out with
      request := s.conn.out.request + BitVec.ofNat 64 ((s.conn.numberRequest req).2 + 1) } := by
  show (s.conn.numberRequest req).1.out = _
  rw [numberRequest_fst]

omit [DecidableEq τ] in
theorem requests_numberRequest (s : System τ β) (e : Env τ β) (req : PreparedRequest) :
    (s.numberRequest e req).requests =
      s.requests ++ (List.replicate (s.conn.numberRequest req).2 syncReq ++ [req.encoding]) :=
  List.append_assoc _ _ _

omit [DecidableEq τ] in
/-- At most one `GetInputFocus` is numbered, and one is written. -/
theorem flatten_vector_numberRequest (hsingle : ¬ s.conn.DoubleSync req.isvoid) :
    (req.vector ((s.conn.numberRequest req).2 ≠ 0)).flatten =
      (List.replicate (s.conn.numberRequest req).2 syncReq ++ [req.encoding]).flatten := by
  have hcount := numberRequest_snd_le_one hsingle
  rw [flatten_vector]
  rcases Nat.le_one_iff_eq_zero_or_eq_one.mp hcount with hzero | hone
  · simp [hzero]
  · simp [hone]

/-- The phase after a request was put in: what does not fit is held. -/
def blockPhase (vector : List Iovec) : WritePhase τ :=
  if vector = [] then .quiet else .held vector

omit [DecidableEq τ] in
theorem vector_blockPhase (vector : List Iovec) :
    (blockPhase vector : WritePhase τ).vector = vector := by
  unfold blockPhase
  split <;> simp [WritePhase.vector, *]

omit [DecidableEq τ] in
/-- A request with its `GetInputFocus`, if it gets one, is at the end of the stream. -/
theorem Streaming.number (h : Streaming p size .quiet s) (hsize : size < 2 ^ 31)
    (hreq : req.Ordinary p) (hsingle : ¬ s.conn.DoubleSync req.isvoid) {block : XcbOut × List Iovec}
    (hblock : (s.numberRequest e req).conn.out.writeBlock
      (req.vector ((s.conn.numberRequest req).2 ≠ 0)) = block) :
    Streaming p size (blockPhase block.2) ((s.numberRequest e req).setOut block.1) := by
  have hflatten := flatten_vector_numberRequest hsingle
  have hout := out_numberRequest s e req
  have hcount := numberRequest_snd_le_one hsingle
  have hparts : ∀ part ∈ req.vector ((s.conn.numberRequest req).2 ≠ 0), part.length < 2 ^ 31 :=
    length_lt_of_mem_vector hreq.short
  have hrequests := requests_numberRequest s e req
  generalize req.vector ((s.conn.numberRequest req).2 ≠ 0) = parts at hblock hflatten hparts
  generalize (s.conn.numberRequest req).2 = count at hflatten hout hcount hrequests
  set o := (s.numberRequest e req).conn.out with ho
  have hqueued : o.queued = s.conn.out.queued := by rw [hout]; rfl
  have hfits : o.Fits := by rw [hout]; exact h.fits
  have hqueue : o.queue.length = size := by rw [hout]; exact h.queue
  obtain ⟨queue, queueLen, heq⟩ := out_writeBlock_eq o parts
  have herror : s.conn.hasError = true → (s.numberRequest e req).conn.hasError = true := fun hs =>
    hasError_loseEntries (c := (s.conn.numberRequest req).1)
      (by rw [numberRequest_fst]; exact hs) _ _
  have hquiet : (blockPhase block.2 : WritePhase τ) = .quiet → block.2 = [] := by
    intro hq
    by_contra hne
    rw [blockPhase, if_neg hne] at hq
    cases hq
  subst hblock
  refine ⟨?_, h.pcs, fun v failed sender w hv => ?_, fun v w hphase => ?_, ?_, ?_, ?_,
    fun hphase => ?_, ?_, fun hu => ?_, fun hp => ?_⟩
  · show (o.writeBlock parts).1.returnSocket = none
    rw [heq, hout]
    exact h.unowned
  · exact absurd (h.pollers v failed sender w hv).1 nofun
  · unfold blockPhase at hphase
    split at hphase <;> cases hphase
  · show (o.writeBlock parts).1.writing = _
    rw [heq, hout, blockPhase]
    have hwriting : s.conn.out.writing = 0 := h.writing
    split <;> exact hwriting
  · exact (length_queue_writeBlock o parts).trans hqueue
  · exact fits_writeBlock hfits parts
  · refine queueLen_writeBlock fun hnil => hphase ?_
    rw [blockPhase, if_pos hnil]
  · rw [vector_blockPhase]
    exact sane_writeBlock hfits (hqueue.trans_lt hsize) hparts
  · have hstream := h.stream (hasError_eq_false herror hu)
    rw [WritePhase.vector, gather_nil, List.append_nil] at hstream
    rw [vector_blockPhase]
    show s.socket ++ gather (o.writeBlock parts).1.queue (o.writeBlock parts).2 ++
      (o.writeBlock parts).1.queued = (s.numberRequest e req).requests.flatten
    rw [List.append_assoc, gather_writeBlock, hqueued, ← List.append_assoc, hstream, hflatten,
      hrequests, ← List.flatten_append]
  · obtain ⟨written, hc⟩ := h.counted hp
    have hwritten := hc.quiet rfl
    have hle := hc.written_le
    have hlen : s.conn.out.queueLen ≤ size := h.fits.trans_eq h.queue
    have hlength : (s.numberRequest e req).requests.length = s.requests.length + (count + 1) := by
      rw [hrequests, List.length_append, List.length_append, List.length_replicate,
        List.length_singleton]
    have hrequests' : ∃ new, ((s.numberRequest e req).setOut (o.writeBlock parts).1).requests =
        s.requests ++ new := ⟨_, hrequests⟩
    refine ⟨written, ?_, ?_, ?_, ?_, ?_, ?_, ?_, ?_⟩
    · show (o.writeBlock parts).1.request = BitVec.ofNat 64 (s.numberRequest e req).requests.length
      rw [heq, hout, hlength, BitVec.ofNat_add s.requests.length, ← hc.request]
    · show (o.writeBlock parts).1.requestWritten = _
      rw [heq, hout]
      exact hc.requestWritten
    · show written ≤ (s.numberRequest e req).requests.length
      omega
    · intro hq
      show (s.numberRequest e req).requests.length ≤ written + (o.writeBlock parts).1.queueLen
      rw [queueLen_writeBlock_of_nil (hquiet hq), hflatten, hlength]
      have hencoding : 0 < req.encoding.length := List.length_pos_iff.mpr (hreq.nonempty hp)
      have hroom : count + 1 ≤ (List.replicate count syncReq ++ [req.encoding]).flatten.length := by
        rcases Nat.le_one_iff_eq_zero_or_eq_one.mp hcount with hzero | hone
        · simp [hzero]
          omega
        · simp [hone, syncReq]
      have hold : o.queueLen = s.conn.out.queueLen := by rw [hout]
      omega
    · show (s.numberRequest e req).requests.length ≤ written + size + 2
      omega
    · intro v f request n hv
      obtain ⟨hrequest, hn, hlast, hdone⟩ := hc.waiting v f request n hv
      have hmore : s.requests.length ≤ (s.numberRequest e req).requests.length := by omega
      exact ⟨hrequest, hn.trans hmore, hlast, fun _ => hdone rfl⟩
    · intro hu
      exact (hc.handed (hasError_eq_false herror hu)).mono hle hrequests' (List.prefix_refl _)
    · exact fun entry hentry =>
        (hc.log entry hentry).mono herror hrequests' (List.prefix_refl _)

theorem Streaming.sendRequest (h : Streaming p size .quiet s) (hsize : size < 2 ^ 31)
    (hreq : req.Ordinary p) (hsingle : ¬ s.conn.DoubleSync req.isvoid) :
    Settled p size (s.sendRequest e t req) := by
  have hnote : Streaming p size .quiet
      (s.note (.numbered s.conn.out.writing s.conn.out.returnSocket.isSome)) :=
    h.moves (.note fun _ => trivial)
  have hnumber := hnote.number (e := e) hsize hreq hsingle rfl
  unfold System.sendRequest System.writeBlock
  dsimp only
  split
  · next hnil =>
    rw [blockPhase, if_pos hnil] at hnumber
    refine Streaming.settled (hnumber.leave nofun fun _ => ?_) nofun
    trivial
  · next hne =>
    rw [blockPhase, if_neg hne] at hnumber
    refine hnumber.outSend ?_ (Nat.le_refl _) nofun
    trivial

theorem Streaming.awaitTurn (h : Streaming p size phase s) (hheld : ∀ vector, phase ≠ .held vector)
    (hself : ∀ vector, phase ≠ .poll t vector) (hsize : size < 2 ^ 31) (hreq : req.Ordinary p)
    (hsingle : s.conn.out.writing = 0 → ¬ s.conn.DoubleSync req.isvoid) :
    Settled p size (s.awaitTurn e t req) := by
  unfold System.awaitTurn
  split
  · have hmove : Moves p phase s (s.setPc t (.awaitTurn req)) :=
      .setPc hreq nofun (fun w hw => absurd hw (hself w)) nofun
    exact (h.moves hmove).settled hheld
  · next hwriting =>
    rw [not_not] at hwriting
    have hquiet := h.quiet_of_writing hheld hwriting
    subst hquiet
    have hsend : s.getSocketBack e t (.send req) = s.sendRequest e t req := by
      rw [getSocketBack, h.unowned, afterSocket]
    rw [hsend]
    exact h.sendRequest hsize hreq (hsingle hwriting)

/-- What `xcb_wait_for_reply` makes of 32 bits is close to the number of the last request. -/
theorem exists_widenRequest (last : ℕ) (request : BitVec 32) :
    ∃ k, widenRequest (BitVec.ofNat 64 last) request = BitVec.ofNat 64 k ∧ k ≤ last + 2 ^ 64 ∧
      last + 2 ^ 64 < k + 2 ^ 32 := by
  have hback : (last + 2 ^ 64 - request.toNat) % 2 ^ 32 < 2 ^ 32 := Nat.mod_lt _ (by norm_num)
  have hrequest := request.isLt
  have hlow : BitVec.ofNat 32 (last + 2 ^ 64 - (last + 2 ^ 64 - request.toNat) % 2 ^ 32) =
    request := by
    apply BitVec.eq_of_toNat_eq
    rw [BitVec.toNat_ofNat]
    omega
  refine ⟨last + 2 ^ 64 - (last + 2 ^ 64 - request.toNat) % 2 ^ 32, ?_, by omega, by omega⟩
  rw [show BitVec.ofNat 64 last = BitVec.ofNat 64 (last + 2 ^ 64) by rw [BitVec.ofNat_add]; simp]
  conv_lhs => rw [← hlow]
  exact widenRequest_ofNat (by omega) (by omega)

theorem Streaming.start (h : Streaming p size phase s) (hheld : ∀ vector, phase ≠ .held vector)
    (hself : ∀ vector, phase ≠ .poll t vector) (hsize : size < 2 ^ 31)
    {call : Call PreparedRequest} (hcall : (Pc.lock call).Streams p)
    (hsingle : ∀ req, call = .send req → s.conn.out.writing = 0 →
      ¬ s.conn.DoubleSync req.isvoid) : Settled p size (s.start e t call) := by
  cases call with
  | send req => exact h.awaitTurn hheld hself hsize hcall (hsingle req rfl)
  | flush =>
    have hflush : (Flusher.flush s.requests.length).Streams := trivial
    refine h.flushTo hheld hself hsize hflush (Nat.le_refl _) (fun hp => ?_)
      (Nat.le_refl (s.requests.length + 2 ^ 64)) (by omega) (by simp [Flusher.last])
    obtain ⟨written, hc⟩ := h.counted hp
    rw [hc.request, BitVec.ofNat_add]
    simp
  | takeSocket flags => exact hcall.elim
  | writev vector requests => exact hcall.elim
  | waitForReply request =>
    have hsome : s.conn.out.returnSocket.isSome = false := by rw [h.unowned]; rfl
    obtain ⟨k, hk, hle, hlt⟩ := exists_widenRequest s.requests.length request
    unfold System.start
    dsimp only
    rw [hsome, if_neg (by decide)]
    have hflush : (Flusher.waitForReply request).Streams := trivial
    refine h.flushTo hheld hself hsize hflush (Nat.zero_le _) (fun hp => ?_) hle hlt (Nat.zero_le _)
    obtain ⟨written, hc⟩ := h.counted hp
    rw [hc.request, hk]
  | pollForReply request =>
      exact (h.moves (.of_serves hself (serves_pollForReply s t request))).settled hheld
  | discardReply request =>
      exact (h.moves (.of_serves hself (serves_discardReply s t request))).settled hheld
  | waitForEvent => exact (h.moves (.of_serves hself (serves_waitEvent s e t))).settled hheld
  | pollForEvent => exact (h.moves (.of_serves hself (serves_pollEvent s e t))).settled hheld

end functions

/-! ### Steps -/

/-- What a thread may do without handoffs: requests with ordinary parts, and no other output. -/
def Action.Ordinary (p : Prop) : Action τ β → Prop
  | .call _ (.send request) => request.Ordinary p
  | .call _ (.takeSocket _) | .call _ (.writev _ _) => False
  | _ => True

instance [Decidable p] (a : Action τ β) : Decidable (a.Ordinary p) := by
  refine Action.casesOn a (fun t call => Call.casesOn call ?_ ?_ ?_ ?_ ?_ ?_ ?_ ?_ ?_) ?_ ?_ <;>
    intros <;> dsimp only [Action.Ordinary] <;> infer_instance

/-- A thread that numbers a request does not insert two `GetInputFocus`. -/
def Singly (s : System τ β) : Action τ β → Prop
  | .run t _ =>
    match s.threads t with
    | .lock (.send req) | .awaitTurn req =>
      s.conn.out.writing = 0 → ¬ s.conn.DoubleSync req.isvoid
    | _ => True
  | _ => True

instance (s : System τ β) (a : Action τ β) : Decidable (s.Singly a) := by
  refine Action.casesOn a ?_ ?_ fun t e => ?_ <;> intros <;> dsimp only [Singly]
  · infer_instance
  · infer_instance
  · generalize s.threads t = pc
    refine Pc.casesOn pc ?_ (fun call => Call.casesOn call ?_ ?_ ?_ ?_ ?_ ?_ ?_ ?_ ?_)
      ?_ ?_ ?_ ?_ ?_ ?_ ?_ ?_ <;>
      intros <;> infer_instance

/-- A thread that waits for another one to write its request goes on before the next `2 ^ 63`
requests are numbered. -/
def InTime (s : System τ β) : Action τ β → Prop
  | .run t _ =>
    match s.threads t with
    | .awaitWritten _ _ n => s.requests.length < n + 2 ^ 63
    | _ => True
  | _ => True

instance (s : System τ β) (a : Action τ β) : Decidable (s.InTime a) := by
  refine Action.casesOn a ?_ ?_ fun t e => ?_ <;> intros <;> dsimp only [InTime]
  · infer_instance
  · infer_instance
  · generalize s.threads t = pc
    refine Pc.casesOn pc ?_ ?_ ?_ ?_ ?_ ?_ ?_ ?_ ?_ ?_ <;>
      intros <;> infer_instance

omit [DecidableEq τ] in
theorem settled_init (p : Prop) (size : ℕ) (maximum : BitVec 16) :
    Settled p size (init size maximum : System τ β) := by
  refine ⟨.quiet, nofun, rfl, fun _ => trivial, nofun, nofun, rfl, List.length_replicate,
    Nat.zero_le _,
    nofun, nofun, fun _ => rfl, fun _ => ⟨0, rfl, rfl, Nat.le_refl _, fun _ => Nat.zero_le _,
      Nat.zero_le _, nofun, fun _ => List.nil_prefix, nofun⟩⟩

omit [DecidableEq τ] in
theorem Streaming.refuse (h : Streaming p size phase s) (call : Call SendCall) :
    Streaming p size phase (s.refuse call) := by
  cases call <;> exact h.moves (.note fun _ => trivial)

theorem Streaming.enter (h : Streaming p size phase s) (hself : ∀ vector, phase ≠ .poll t vector)
    {call : Call SendCall} (hcall : (Action.call t call : Action τ β).Ordinary p) :
    Streaming p size phase (s.enter t call) := by
  have hlock : ∀ call' : Call PreparedRequest, (Pc.lock call').Streams p →
      Streaming p size phase (s.setPc t (.lock call')) := fun call' hcall' =>
    h.moves (.setPc hcall' nofun (fun w hw => absurd hw (hself w)) nofun)
  cases call with
  | send call =>
    unfold System.enter
    dsimp only
    split
    · next req hreq => exact hlock (.send req) (ordinary_of_prepare hreq hcall)
    · exact h.shutdown.moves (.note fun _ => trivial)
  | discardReply request =>
    unfold System.enter
    dsimp only
    split
    · exact h.moves (.note fun _ => trivial)
    · exact hlock (.discardReply request) trivial
  | takeSocket flags => exact hcall.elim
  | writev vector requests => exact hcall.elim
  | flush => exact hlock .flush trivial
  | waitForReply request => exact hlock (.waitForReply request) trivial
  | pollForReply request => exact hlock (.pollForReply request) trivial
  | waitForEvent => exact hlock .waitForEvent trivial
  | pollForEvent => exact hlock .pollForEvent trivial

theorem Streaming.call (h : Streaming p size phase s) {call : Call SendCall}
    (hcall : (Action.call t call : Action τ β).Ordinary p) (hstep : s.call t call = some u) :
    Streaming p size phase u := by
  unfold System.call at hstep
  split at hstep
  · next ht =>
    have hself : ∀ vector, phase ≠ .poll t vector := by
      intro vector hphase
      obtain ⟨failed, sender, hpoll⟩ := h.polling t vector hphase
      rw [ht] at hpoll
      cases hpoll
    split at hstep
    · split at hstep <;> cases hstep
      · exact h.refuse call
      · exact h.enter hself hcall
    · cases hstep
  · cases hstep

theorem Streaming.pollFails (h : Streaming p size phase s) (hstep : s.pollFails t = some u) :
    Streaming p size phase u := by
  have hpc := h.pcs t
  have hpoll := h.pollers t
  unfold System.pollFails at hstep
  split at hstep
  · next failed sender vector ht =>
    cases hstep
    rw [ht] at hpc
    have hphase := (hpoll failed sender vector ht).1
    refine h.shutdown.moves (.setPc hpc (fun failed' sender' vector' hnew => ?_)
      (fun vector' hphase' => ?_) nofun)
    · cases hnew
      exact ⟨hphase, fun _ => rfl⟩
    · rw [hphase] at hphase'
      cases hphase'
      exact ⟨true, sender, rfl⟩
  · next ht =>
    cases hstep
    refine h.shutdown.moves (.setPc trivial nofun (fun vector hphase => ?_) nofun)
    obtain ⟨failed, sender, hpolling⟩ := h.polling t vector hphase
    rw [ht] at hpolling
    cases hpolling
  · cases hstep

variable [Fintype τ]

theorem Streaming.run (h : Streaming p size phase s) (hheld : ∀ vector, phase ≠ .held vector)
    (hsize : size < 2 ^ 31) (hbounded : s.Bounded) {e : Env τ β}
    (hsingle : s.Singly (.run t e)) (htime : p → s.InTime (.run t e))
    (hstep : s.run t e = some u) : Settled p size u := by
  have hpc := h.pcs t
  have hlast := hbounded t
  have hself : (∀ failed sender vector, s.threads t ≠ .pollOut failed sender vector) →
      ∀ vector, phase ≠ .poll t vector := by
    intro hne vector hphase
    obtain ⟨failed, sender, hpoll⟩ := h.polling t vector hphase
    exact hne failed sender vector hpoll
  unfold System.run at hstep
  split at hstep
  · cases hstep
  · next call ht =>
    cases hstep
    rw [ht] at hpc
    have hself := hself (by rw [ht]; nofun)
    refine (h.moves (.idle hself)).start hheld hself hsize hpc fun req hreq => ?_
    rw [Singly, ht, hreq] at hsingle
    exact hsingle
  · next req ht =>
    cases hstep
    rw [ht] at hpc
    rw [Singly, ht] at hsingle
    have hself := hself (by rw [ht]; nofun)
    exact (h.moves (.idle hself)).awaitTurn hheld hself hsize hpc hsingle
  · next ht =>
    rw [ht] at hpc
    exact hpc.elim
  · next ht =>
    rw [ht] at hpc
    exact hpc.elim
  · next ht =>
    rw [ht] at hpc
    exact hpc.elim
  · next failed sender vector ht =>
    obtain ⟨hphase, hfailed⟩ := h.pollers t failed sender vector ht
    subst hphase
    split at hstep
    · next hvalid =>
      cases hstep
      rw [ht] at hpc hlast
      exact h.finishWrite hpc hlast hfailed hvalid
    · cases hstep
  · next f request n ht =>
    cases hstep
    rw [ht] at hpc hlast
    have hself := hself (by rw [ht]; nofun)
    refine (h.moves (.idle hself)).awaitWritten hheld hself hpc hlast (fun hp => ?_)
      fun hp hquiet => ?_
    · obtain ⟨written, hc⟩ := h.counted hp
      obtain ⟨hrequest, hle, hf, -⟩ := hc.waiting t f request n ht
      exact ⟨hrequest, hle, hf⟩
    · obtain ⟨written, hc⟩ := h.counted hp
      obtain ⟨-, -, -, hdone⟩ := hc.waiting t f request n ht
      have hlt := htime hp
      rw [InTime, ht] at hlt
      exact ⟨written, hc.requestWritten, hdone hquiet, hc.written_le.trans_lt hlt, hc.handed⟩
  · next ht =>
    cases hstep
    have hself := hself (by rw [ht]; nofun)
    exact ((h.moves (.idle hself)).moves (.of_serves hself (serves_afterRead _ e t _ true))).settled
      hheld
  · next ht =>
    cases hstep
    have hself := hself (by rw [ht]; nofun)
    exact (h.moves (.of_serves hself (serves_finishRead s e t _ _))).settled hheld

/-- **One step**: the stream stays the requests. -/
theorem settled_step (hsize : size < 2 ^ 31) (hbounded : s.Bounded) {a : Action τ β}
    (h : Settled p size s) (hordinary : a.Ordinary p) (hsingle : s.Singly a)
    (htime : p → s.InTime a)
    (hstep : s.step a = some u) : Settled p size u := by
  obtain ⟨phase, hheld, hstreaming⟩ := h
  cases a with
  | call t call => exact (hstreaming.call hordinary hstep).settled hheld
  | pollFails t => exact (hstreaming.pollFails hstep).settled hheld
  | run t e => exact hstreaming.run hheld hsize hbounded hsingle htime hstep

end System

end Xcb
