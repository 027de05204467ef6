import Xcb.Auth
import Xcb.Display

/-!
# Connecting: `xcb_util.c` and `xcb_conn.c`

A display name says which kind of socket to open. On the way to a connection there are many places
where something fails, and at each of them there is something to give back: the descriptor, the
parts of the name, the list of addresses, the authorization, and the connection as far as it has
been set up.

There is no DECnet and no launchd. What the functions ask the system for is a parameter, place by
place, and so is whether the server accepts the setup: `Setup` is about that.

## Main definitions

* `xcbSocket`, `openTcp`, `openUnix`, `openAbstract`, `xcbOpen` — from a display name to a
  descriptor
* `Startup.connectToFd`, `disconnect` — `xcb_connect_to_fd` and `xcb_disconnect`
* `Host.connectToDisplay` — `xcb_connect_to_display_with_auth_info`

## Main results

* `Host.parseDisplay_eq` — the parts of the name are those of `parseDisplayProtocol`
* `connectToDisplay_keeps` — what is held, and which descriptors are open, when a connection was
  made, and when not
-/

namespace Xcb

/-! ### Sockets -/

/-- The errors that make a difference. -/
inductive Errno
  | einval
  | enoent
  | econnrefused
  | other
  deriving DecidableEq

/-- A try to reach a server: what `socket` returns with `SOCK_CLOEXEC` and without it, and what
`connect` returns; `none` is success. -/
structure Attempt where
  cloexec : Option Errno
  plain : Option Errno
  connect : Option Errno

/-- How the library was built. -/
structure Build where
  /-- `SOCK_CLOEXEC` is defined. -/
  cloexec : Bool
  /-- `AF_INET6` is defined. -/
  inet6 : Bool
  /-- `HAVE_ABSTRACT_SOCKETS` -/
  abstract : Bool

/-- `_xcb_socket`. A descriptor that is not closed on `exec` from the beginning is marked. -/
def xcbSocket (b : Build) (a : Attempt) (l : Ledger Resource) :
    Except Errno Name × Ledger Resource :=
  let marked := match a.plain with
    | none => let (fd, l) := l.acquire .descriptor; (.ok fd, l.use fd)
    | some errno => (.error errno, l)
  if b.cloexec then
    match a.cloexec with
    | none => let (fd, l) := l.acquire .descriptor; (.ok fd, l)
    | some errno => if errno = .einval then marked else (.error errno, l)
  else marked

/-- A socket that is connected, or closed. -/
def connectSocket (b : Build) (a : Attempt) (l : Ledger Resource) :
    Except Errno Name × Ledger Resource :=
  match xcbSocket b a l with
  | (.error errno, l) => (.error errno, l)
  | (.ok fd, l) =>
    let l := l.use fd
    match a.connect with
    | none => (.ok fd, l)
    | some errno => (.error errno, l.release fd)

/-- `_xcb_open_unix`, and the end of `_xcb_open_abstract`; `errno` is what it was before. -/
def openUnix (b : Build) (a : Attempt) (protocol : Option (List Char)) (errno : Errno)
    (l : Ledger Resource) : Except Errno Name × Ledger Resource :=
  if protocol ≠ none ∧ protocol ≠ some ['u', 'n', 'i', 'x'] then (.error errno, l)
  else connectSocket b a l

/-- `_xcb_open_abstract`: as `_xcb_open_unix`, with another address. -/
def openAbstract (b : Build) (a : Attempt) (protocol : Option (List Char)) (errno : Errno)
    (l : Ledger Resource) : Except Errno Name × Ledger Resource :=
  openUnix b a protocol errno l

/-- The arguments of `getaddrinfo`. -/
structure Query where
  host : List Char
  service : List Char
  /-- `AI_NUMERICHOST`, and `AF_INET6` -/
  numeric : Bool
  deriving DecidableEq

/-- Where `_xcb_open_tcp` looks for a host. An IPv6 address may be in brackets. -/
def tcpQuery (b : Build) (host : List Char) (port : ℕ) : Query :=
  let host := if host = [] then ['l', 'o', 'c', 'a', 'l', 'h', 'o', 's', 't'] else host
  let service := Nat.toDigits 10 port
  if b.inet6 ∧ host.head? = some '[' ∧ host.getLast? = some ']' then
    ⟨host.tail.dropLast, service, true⟩
  else ⟨host, service, false⟩

/-- The loop of `_xcb_open_tcp`: the first address that can be connected to. Two options are set for
the socket before. -/
def connectFirst (b : Build) : List Attempt → Ledger Resource → Option Name × Ledger Resource
  | [], l => (none, l)
  | a :: addrs, l =>
    match xcbSocket b a l with
    | (.error _, l) => connectFirst b addrs l
    | (.ok fd, l) =>
      let l := ((l.use fd).use fd).use fd
      match a.connect with
      | none => (some fd, l)
      | some _ => connectFirst b addrs (l.release fd)

/-- The protocols of `_xcb_open_tcp`. -/
def isTcp (b : Build) (protocol : List Char) : Bool :=
  protocol == ['t', 'c', 'p'] || protocol == ['i', 'n', 'e', 't'] ||
    b.inet6 && protocol == ['i', 'n', 'e', 't', '6']

/-- `_xcb_open_tcp`. What `getaddrinfo` returns is given back in any case. -/
def openTcp (b : Build) (getaddrinfo : Query → Option (List Attempt)) (host : List Char)
    (protocol : Option (List Char)) (port : ℕ) (l : Ledger Resource) :
    Option Name × Ledger Resource :=
  if protocol.any fun protocol => !isTcp b protocol then (none, l)
  else
    match getaddrinfo (tcpQuery b host port) with
    | none => (none, l)
    | some addrs =>
      let (results, l) := l.acquire .addrinfo
      let (fd, l) := connectFirst b addrs l
      (fd, l.release results)

/-! ### Setting a connection up -/

/-- What `read_setup` meets: whether `malloc` grants the header, and what comes of reading it, of
`realloc`, of reading the rest, and of the status. -/
structure SetupAnswer where
  malloc : Bool
  header : Bool
  realloc : Realloc
  rest : Bool
  accepted : Bool
  deriving DecidableEq

/-- `c->setup` after `read_setup`, with the return value. -/
def SetupAnswer.read (a : SetupAnswer) (fd : Name) (l : Ledger Resource) :
    Bool × Option Name × Ledger Resource :=
  if a.malloc then
    let (setup, l) := l.acquire .memory
    let l := l.use fd
    if a.header then
      match a.realloc with
      | .failed => (false, some setup, l)
      | .inPlace => (a.rest && a.accepted, some setup, l.use fd)
      | .moved =>
        let (setup, l) := (l.release setup).acquire .memory
        (a.rest && a.accepted, some setup, l.use fd)
    else (false, some setup, l)
  else (false, none, l)

/-- What `xcb_connect_to_fd` meets. -/
structure Startup where
  calloc : Bool
  setFdFlags : Bool
  iolock : Bool
  /-- `pthread_cond_init` in `_xcb_in_init`, and `_xcb_map_new`. -/
  eventCond : Bool
  replies : Bool
  outInit : Bool
  writeSetup : Bool
  answer : SetupAnswer
  extInit : Bool
  xidInit : Bool
  deriving DecidableEq

/-- The memory and the descriptor of a connection. -/
structure Conn where
  block : Name
  fd : Name
  replies : Option Name
  setup : Option Name
  deriving DecidableEq

namespace Startup

/-- `_xcb_in_init`: `in->replies`, with the return value. -/
def inInit (s : Startup) (l : Ledger Resource) : Bool × Option Name × Ledger Resource :=
  if s.eventCond ∧ s.replies then
    let (replies, l) := l.acquire .memory
    (true, some replies, l)
  else (false, none, l)

/-- The steps of `xcb_connect_to_fd`, up to the first that fails: whether all have succeeded, and
`c->in.replies` and `c->setup`. -/
def steps (s : Startup) (fd : Name) (l : Ledger Resource) :
    Bool × Option Name × Option Name × Ledger Resource :=
  let l := l.use fd
  if s.setFdFlags ∧ s.iolock then
    match s.inInit l with
    | (false, replies, l) => (false, replies, none, l)
    | (true, replies, l) =>
      if s.outInit then
        let l := l.use fd
        if s.writeSetup then
          let (read, setup, l) := s.answer.read fd l
          (read && s.extInit && s.xidInit, replies, setup, l)
        else (false, replies, none, l)
      else (false, replies, none, l)
  else (false, none, none, l)

end Startup

/-- `xcb_disconnect`. What else the input half and the extensions hold is not there yet. -/
def disconnect (c : Conn) (l : Ledger Resource) : Ledger Resource :=
  let l := l.free c.setup
  let l := (l.use c.fd).release c.fd
  let l := l.free c.replies
  l.release c.block

/-- `xcb_connect_to_fd` -/
def Startup.connectToFd (s : Startup) (fd : Name) (l : Ledger Resource) :
    Option Conn × Ledger Resource :=
  if s.calloc then
    let (block, l) := l.acquire .memory
    let (connected, replies, setup, l) := s.steps fd l
    if connected then (some ⟨block, fd, replies, setup⟩, l)
    else (none, disconnect ⟨block, fd, replies, setup⟩ l)
  else (none, l.release fd)

/-! ### From a display name -/

/-- Where a client is, and what it meets there. -/
structure Host where
  build : Build
  /-- The width of `unsigned long`. -/
  ulong : ℕ
  /-- The environment variable `DISPLAY`. -/
  display : Option (List Char)
  mallocProtocol : Bool
  mallocHost : Bool
  mallocFile : Bool
  getaddrinfo : Query → Option (List Attempt)
  unix : List Char → Attempt
  abstract : List Char → Attempt
  errno : Errno
  authority : Authority
  /-- What is met depends on the authorization that is sent. -/
  startup : Option AuthInfo → Startup

/-- What a display name was parsed to, with the memory for two parts of it. -/
structure Parsed where
  host : List Char
  protocol : Option (List Char)
  display : ℤ
  screen : ℤ
  hostMemory : Name
  protocolMemory : Option Name

/-- What the pointers of the caller point to. -/
def Parsed.pointers (p : Parsed) (screenp : Option ℤ) : DisplayPointers :=
  ⟨some p.host, some p.protocol, p.display, screenp.map fun _ => p.screen⟩

namespace Host

variable (e : Host)

/-- `_xcb_parse_display`, behind the protocol. -/
def parseBehind (protocol : Option (List Char)) (protocolMemory : Option Name) (name : List Char)
    (l : Ledger Resource) : Option (Option Parsed × Ledger Resource) :=
  match parseHost e.ulong name with
  | some (host, display, screen) =>
    match copyPart e.mallocHost host with
    | some (some host) =>
      let (hostMemory, l) := l.acquire .memory
      some (some ⟨host, protocol, display, screen, hostMemory, protocolMemory⟩, l)
    | some none => some (none, l.free protocolMemory)
    | none => none
  | none => some (none, l.free protocolMemory)

/-- `_xcb_parse_display`, with its allocations; `none` where it does what is not defined. -/
def parseDisplay (name : Option (List Char)) (l : Ledger Resource) :
    Option (Option Parsed × Ledger Resource) :=
  match displayName name e.display with
  | none => some (none, l)
  | some name =>
    match splitProtocol name with
    | (some protocol, name) =>
      match copyPart e.mallocProtocol protocol with
      | some (some protocol) =>
        let (protocolMemory, l) := l.acquire .memory
        e.parseBehind (some protocol) (some protocolMemory) name l
      | some none => some (none, l)
      | none => none
    | (none, name) => e.parseBehind none none name l

/-- What the caller of `_xcb_parse_display` finds when it succeeds. -/
def accepted (r : Bool × DisplayPointers) : Option DisplayPointers := if r.1 then some r.2 else none

variable {e}

theorem parseBehind_eq (hhost : e.mallocHost = true) (protocol : Option (List Char))
    (protocolMemory : Option Name) (name : List Char) (p : DisplayPointers)
    (hp : p.protocol = some protocol) (l : Ledger Resource) :
    (e.parseBehind protocol protocolMemory name l).map (·.1.map (·.pointers p.screen)) =
      (parseUnprefixed e.ulong name p).map accepted := by
  rw [parseBehind, parseUnprefixed, hhost, hp]
  cases parseHost e.ulong name with
  | none => rfl
  | some found =>
    dsimp only
    cases copyPart true found.1 with
    | none => rfl
    | some copy => cases copy <;> rfl

/-- With enough memory, the parts of a name are those of `parseDisplayProtocol`. -/
theorem parseDisplay_eq (hprotocol : e.mallocProtocol = true) (hhost : e.mallocHost = true)
    (name : Option (List Char)) (screenp : Option ℤ) (l : Ledger Resource) :
    (e.parseDisplay name l).map (·.1.map (·.pointers screenp)) =
      (parseDisplayProtocol e.ulong name e.display ⟨none, some none, 0, screenp⟩).map accepted := by
  rw [parseDisplay, parseDisplayProtocol, hprotocol]
  cases displayName name e.display with
  | none => rfl
  | some text =>
    dsimp only
    cases splitProtocol text with
    | mk protocol rest =>
      cases protocol with
      | none => exact parseBehind_eq hhost none none rest ⟨none, some none, 0, screenp⟩ rfl l
      | some protocol =>
        dsimp only
        cases copyPart true protocol with
        | none => rfl
        | some copy =>
          cases copy with
          | none => rfl
          | some copy =>
            exact parseBehind_eq hhost (some copy) _ rest ⟨none, some (some copy), 0, screenp⟩ rfl _

/-- Nothing undefined is done with a name that is not too long. -/
theorem exists_parseBehind {name : List Char} (hlen : name.length < 2 ^ 31 - 1)
    (protocol : Option (List Char)) (protocolMemory : Option Name) (l : Ledger Resource) :
    ∃ r, e.parseBehind protocol protocolMemory name l = some r := by
  rw [parseBehind]
  cases hfound : parseHost e.ulong name with
  | none => exact ⟨_, rfl⟩
  | some found =>
    obtain ⟨host, display, screen⟩ := found
    have hhost : host.length < 2 ^ 31 - 1 := lt_of_le_of_lt (length_of_parseHost hfound) hlen
    dsimp only
    cases e.mallocHost with
    | true =>
      rw [copyPart_of_lt hhost]
      exact ⟨_, rfl⟩
    | false =>
      rw [copyPart_false hhost]
      exact ⟨_, rfl⟩

theorem exists_parseDisplay {name : Option (List Char)}
    (hlen : ∀ text ∈ displayName name e.display, text.length < 2 ^ 31 - 1) (l : Ledger Resource) :
    ∃ r, e.parseDisplay name l = some r := by
  rw [parseDisplay]
  cases htext : displayName name e.display with
  | none => exact ⟨_, rfl⟩
  | some text =>
    have htextlen := hlen text htext
    dsimp only
    cases hsplit : splitProtocol text with
    | mk protocol rest =>
      obtain ⟨hprotocol, hrest⟩ := length_of_splitProtocol hsplit
      have hrestlen : rest.length < 2 ^ 31 - 1 := lt_of_le_of_lt hrest htextlen
      cases protocol with
      | none => exact exists_parseBehind hrestlen none none l
      | some protocol =>
        have hprotocollen : protocol.length < 2 ^ 31 - 1 :=
          lt_of_le_of_lt (hprotocol protocol rfl) htextlen
        dsimp only
        cases e.mallocProtocol with
        | true =>
          rw [copyPart_of_lt hprotocollen]
          exact exists_parseBehind hrestlen _ _ _
        | false =>
          rw [copyPart_false hprotocollen]
          exact ⟨_, rfl⟩

variable (e)

/-- The name of a local socket. -/
def unixPath (display : ℤ) : List Char :=
  ['/', 't', 'm', 'p', '/', '.', 'X', '1', '1', '-', 'u', 'n', 'i', 'x', '/', 'X'] ++
    decimal display

/-- `_xcb_open`, for a local socket: the abstract one, or the other one when no server listens on
that. -/
def openLocal (protocol : Option (List Char)) (display : ℤ) (l : Ledger Resource) :
    Option Name × Ledger Resource :=
  if e.mallocFile then
    let (file, l) := l.acquire .memory
    let path := unixPath display
    let (tried, l) := if e.build.abstract then
        openAbstract e.build (e.abstract path) protocol e.errno l
      else (.error .enoent, l)
    match tried with
    | .ok fd => (some fd, l.release file)
    | .error errno =>
      if errno = .enoent ∨ errno = .econnrefused then
        let (fd, l) := openUnix e.build (e.unix path) protocol errno l
        (fd.toOption, l.release file)
      else (none, l.release file)
  else (none, l)

/-- `_xcb_open` -/
def xcbOpen (host : List Char) (protocol : Option (List Char)) (display : ℤ)
    (l : Ledger Resource) : Option Name × Ledger Resource :=
  if (host ≠ [] ∨ protocol ≠ none) ∧ (protocol ≠ none ∨ host ≠ ['u', 'n', 'i', 'x']) then
    openTcp e.build e.getaddrinfo host protocol ((6000 + display) % 2 ^ 16).toNat l
  else e.openLocal protocol display l

/-- What is done with a descriptor: set up a connection on it, with the authorization that was given
or one that is found. -/
def connectOn (auth : Option AuthInfo) (display : ℤ) (fd : Name) (l : Ledger Resource) :
    Option Conn × Ledger Resource :=
  match auth with
  | some auth => (e.startup (some auth)).connectToFd fd l
  | none =>
    match e.authority.getAuthInfo display l with
    | (some own, l) =>
      let (c, l) := (e.startup (some own.info)).connectToFd fd l
      (c, (l.release own.name).release own.data)
    | (none, l) => (e.startup none).connectToFd fd l

/-- `xcb_connect_to_display_with_auth_info`; `xcb_connect` is it without an authorization. The
second component is `*screenp`, where that is asked for. It is `none` where the name is so long that
parsing it is not defined. -/
def connectToDisplay (name : Option (List Char)) (auth : Option AuthInfo) (screenp : Option ℤ)
    (l : Ledger Resource) : Option (Option Conn × Option ℤ × Ledger Resource) :=
  match e.parseDisplay name l with
  | none => none
  | some (none, l) => some (none, screenp, l)
  | some (some p, l) =>
    let (c, l) := match e.xcbOpen p.host p.protocol p.display l with
      | (none, l) => (none, l)
      | (some fd, l) => e.connectOn auth p.display fd l
    some (c, screenp.map fun _ => p.screen, (l.release p.hostMemory).free p.protocolMemory)

end Host

/-! ### Descriptors -/

section gains

variable {l₀ l : Ledger Resource} {names : Finset Name}

/-- **`_xcb_socket`** opens one descriptor, or none. -/
theorem xcbSocket_cases (h : l₀.Gains l names) (b : Build) (a : Attempt) :
    (∃ n l', xcbSocket b a l = (.ok (.descriptor, n), l') ∧ (.descriptor, n) ∉ names ∧
        l₀.Gains l' (insert (.descriptor, n) names)) ∨
      ∃ errno, xcbSocket b a l = (.error errno, l) := by
  have hnew := h.next_notMem .descriptor
  have hopen := h.acquire .descriptor
  have hmarked := hopen.use (Finset.mem_insert_self _ _)
  unfold xcbSocket
  cases b.cloexec with
  | true =>
    cases a.cloexec with
    | none => exact .inl ⟨_, _, rfl, hnew, hopen⟩
    | some errno =>
      cases errno with
      | einval =>
        cases a.plain with
        | none => exact .inl ⟨_, _, rfl, hnew, hmarked⟩
        | some errno => exact .inr ⟨errno, rfl⟩
      | enoent | econnrefused | other => exact .inr ⟨_, rfl⟩
  | false =>
    cases a.plain with
    | none => exact .inl ⟨_, _, rfl, hnew, hmarked⟩
    | some errno => exact .inr ⟨errno, rfl⟩

theorem connectSocket_cases (h : l₀.Gains l names) (b : Build) (a : Attempt) :
    (∃ n l', connectSocket b a l = (.ok (.descriptor, n), l') ∧ (.descriptor, n) ∉ names ∧
        l₀.Gains l' (insert (.descriptor, n) names)) ∨
      ∃ errno l', connectSocket b a l = (.error errno, l') ∧ l₀.Gains l' names := by
  unfold connectSocket
  rcases xcbSocket_cases h b a with ⟨n, l', hsocket, hn, hgains⟩ | ⟨errno, hsocket⟩
  · have hused := hgains.use (Finset.mem_insert_self _ _)
    rw [hsocket]
    cases a.connect with
    | none => exact .inl ⟨n, _, rfl, hn, hused⟩
    | some errno => exact .inr ⟨errno, _, rfl, hused.release_next hn⟩
  · rw [hsocket]
    exact .inr ⟨errno, l, rfl, h⟩

theorem openUnix_cases (h : l₀.Gains l names) (b : Build) (a : Attempt)
    (protocol : Option (List Char)) (errno : Errno) :
    (∃ n l', openUnix b a protocol errno l = (.ok (.descriptor, n), l') ∧ (.descriptor, n) ∉ names ∧
        l₀.Gains l' (insert (.descriptor, n) names)) ∨
      ∃ errno' l', openUnix b a protocol errno l = (.error errno', l') ∧ l₀.Gains l' names := by
  unfold openUnix
  by_cases hprotocol : protocol ≠ none ∧ protocol ≠ some ['u', 'n', 'i', 'x']
  · rw [if_pos hprotocol]
    exact .inr ⟨errno, l, rfl, h⟩
  · rw [if_neg hprotocol]
    exact connectSocket_cases h b a

/-- A descriptor more, or nothing. -/
def Opens (l₀ : Ledger Resource) (names : Finset Name) (r : Option Name × Ledger Resource) : Prop :=
  (∃ n l', r = (some (.descriptor, n), l') ∧ (.descriptor, n) ∉ names ∧
      l₀.Gains l' (insert (.descriptor, n) names)) ∨
    ∃ l', r = (none, l') ∧ l₀.Gains l' names

/-- Something else is given back. -/
theorem Opens.release {name : Name} {r : Option Name × Ledger Resource}
    (h : Opens l₀ (insert name names) r) (hname : name ∉ names) :
    Opens l₀ names (r.1, r.2.release name) := by
  rcases h with ⟨n, l', rfl, hn, hgains⟩ | ⟨l', rfl, hgains⟩
  · obtain ⟨hne, hn⟩ := not_or.mp (mt Finset.mem_insert.mpr hn)
    rw [Finset.insert_comm] at hgains
    refine .inl ⟨n, _, rfl, hn, hgains.release_next ?_⟩
    rw [Finset.mem_insert, not_or]
    exact ⟨Ne.symm hne, hname⟩
  · exact .inr ⟨_, rfl, hgains.release_next hname⟩

/-- **The loop of `_xcb_open_tcp`** closes every descriptor but the one that it returns. -/
theorem opens_connectFirst (h : l₀.Gains l names) (b : Build) (addrs : List Attempt) :
    Opens l₀ names (connectFirst b addrs l) := by
  induction addrs generalizing l with
  | nil => exact .inr ⟨l, rfl, h⟩
  | cons a addrs ih =>
    unfold connectFirst
    rcases xcbSocket_cases h b a with ⟨n, l', hsocket, hn, hgains⟩ | ⟨errno, hsocket⟩
    · have hmem := Finset.mem_insert_self (Resource.descriptor, n) names
      have hused := ((hgains.use hmem).use hmem).use hmem
      rw [hsocket]
      cases a.connect with
      | none => exact .inl ⟨n, _, rfl, hn, hused⟩
      | some errno => exact ih (hused.release_next hn)
    · rw [hsocket]
      exact ih h

theorem opens_openTcp (h : l₀.Gains l names) (b : Build)
    (getaddrinfo : Query → Option (List Attempt)) (host : List Char)
    (protocol : Option (List Char)) (port : ℕ) :
    Opens l₀ names (openTcp b getaddrinfo host protocol port l) := by
  unfold openTcp
  split
  · exact .inr ⟨l, rfl, h⟩
  · cases getaddrinfo (tcpQuery b host port) with
    | none => exact .inr ⟨l, rfl, h⟩
    | some addrs =>
      exact (opens_connectFirst (h.acquire .addrinfo) b addrs).release (h.next_notMem .addrinfo)

theorem opens_openLocal (h : l₀.Gains l names) (e : Host) (protocol : Option (List Char))
    (display : ℤ) : Opens l₀ names (e.openLocal protocol display l) := by
  have hfile := h.acquire .memory
  have hnew := h.next_notMem .memory
  have htry : ∀ {l'}, l₀.Gains l' (insert (.memory, l.next) names) → ∀ errno,
      Opens l₀ (insert (.memory, l.next) names)
        ((openUnix e.build (e.unix (Host.unixPath display)) protocol errno l').1.toOption,
          (openUnix e.build (e.unix (Host.unixPath display)) protocol errno l').2) := by
    intro l' hl' errno
    rcases openUnix_cases hl' e.build (e.unix (Host.unixPath display)) protocol errno with
      ⟨n, l'', hopen, hn, hgains⟩ | ⟨errno', l'', hopen, hgains⟩
    · rw [hopen]
      exact .inl ⟨n, l'', rfl, hn, hgains⟩
    · rw [hopen]
      exact .inr ⟨l'', rfl, hgains⟩
  unfold Host.openLocal
  by_cases hmalloc : e.mallocFile = true
  · rw [if_pos hmalloc]
    by_cases habstract : e.build.abstract = true
    · rcases openUnix_cases hfile e.build (e.abstract (Host.unixPath display)) protocol e.errno with
        ⟨n, l', hopen, hn, hgains⟩ | ⟨errno, l', hopen, hgains⟩
      · have hopens : Opens l₀ (insert (.memory, l.next) names) (some (.descriptor, n), l') :=
          .inl ⟨n, l', rfl, hn, hgains⟩
        simp only [if_pos habstract, openAbstract, hopen]
        exact hopens.release hnew
      · simp only [if_pos habstract, openAbstract, hopen]
        by_cases hgo : errno = .enoent ∨ errno = .econnrefused
        · rw [if_pos hgo]
          exact (htry hgains errno).release hnew
        · rw [if_neg hgo]
          exact .inr ⟨_, rfl, hgains.release_next hnew⟩
    · simp only [if_neg habstract]
      exact (htry hfile .enoent).release hnew
  · rw [if_neg hmalloc]
    exact .inr ⟨l, rfl, h⟩

theorem opens_xcbOpen (h : l₀.Gains l names) (e : Host) (host : List Char)
    (protocol : Option (List Char)) (display : ℤ) :
    Opens l₀ names (e.xcbOpen host protocol display l) := by
  unfold Host.xcbOpen
  split
  · exact opens_openTcp h _ _ _ _ _
  · exact opens_openLocal h e protocol display

/-! ### Connections -/

/-- What a connection holds. -/
def Conn.owned (c : Conn) : Finset Name :=
  insert c.fd (insert c.block (c.setup.toFinset ∪ c.replies.toFinset))

/-- The only descriptor that a connection holds. -/
def Conn.OnlyFd (c : Conn) (fd : Name) : Prop :=
  c.fd = fd ∧ ∀ n ∈ c.owned, n.1 = .descriptor → n = fd

/-- What there is of a connection. -/
def ownedBy (c : Option Conn) : Finset Name := c.elim ∅ Conn.owned

/-- **`read_setup`** holds at most one part of memory, in whatever way it fails. -/
theorem SetupAnswer.read_gains {fd : Name} (h : l₀.Gains l names) (hfd : fd ∈ names)
    (a : SetupAnswer) : ∃ ok setup l', a.read fd l = (ok, setup, l') ∧
      l₀.Gains l' (setup.toFinset ∪ names) ∧ Disjoint setup.toFinset names ∧
        ∀ n ∈ setup, n.1 = .memory := by
  have hsome : ∀ {l' : Ledger Resource} {n : ℕ}, (.memory, n) ∉ names →
      l₀.Gains l' (insert (.memory, n) names) →
      l₀.Gains l' ((some (.memory, n)).toFinset ∪ names) ∧
        Disjoint (some (Resource.memory, n)).toFinset names ∧
          ∀ m ∈ some (Resource.memory, n), m.1 = .memory := by
    intro l' n hn hgains
    rw [Option.toFinset_some]
    refine ⟨hgains.congr (Finset.insert_eq _ names), Finset.disjoint_singleton_left.mpr hn, ?_⟩
    rintro m ⟨⟩
    rfl
  have hnew := h.next_notMem .memory
  have hmem : ∀ n : Name, fd ∈ insert n names := fun n => Finset.mem_insert_of_mem hfd
  have hheader := (h.acquire .memory).use (hmem _)
  unfold read
  by_cases hmalloc : a.malloc = true
  · rw [if_pos hmalloc]
    by_cases hread : a.header = true
    · simp only [if_pos hread]
      cases a.realloc with
      | failed => exact ⟨_, _, _, rfl, hsome hnew hheader⟩
      | inPlace => exact ⟨_, _, _, rfl, hsome hnew (hheader.use (hmem _))⟩
      | moved =>
        have hfreed := hheader.release_next hnew
        exact ⟨_, _, _, rfl, hsome (hfreed.next_notMem .memory)
          ((hfreed.acquire .memory).use (hmem _))⟩
    · simp only [if_neg hread]
      exact ⟨_, _, _, rfl, hsome hnew hheader⟩
  · rw [if_neg hmalloc]
    exact ⟨_, none, _, rfl, h.congr (Finset.empty_union names).symm, Finset.disjoint_empty_left _,
      fun n hn => by cases hn⟩

/-- **The steps of `xcb_connect_to_fd`.** -/
theorem Startup.steps_gains {fd : Name} (h : l₀.Gains l names) (hfd : fd ∈ names) (s : Startup) :
    ∃ ok replies setup l', s.steps fd l = (ok, replies, setup, l') ∧
      l₀.Gains l' (setup.toFinset ∪ (replies.toFinset ∪ names)) ∧
        Disjoint replies.toFinset names ∧ Disjoint setup.toFinset (replies.toFinset ∪ names) ∧
          (∀ n ∈ replies, n.1 = .memory) ∧ ∀ n ∈ setup, n.1 = .memory := by
  have hused := h.use hfd
  have hnone : ∀ {l' : Ledger Resource} {names' : Finset Name}, l₀.Gains l' names' →
      l₀.Gains l' ((none : Option Name).toFinset ∪ names') := fun hgains =>
    hgains.congr (Finset.empty_union _).symm
  have hempty : ∀ names' : Finset Name, Disjoint (none : Option Name).toFinset names' :=
    Finset.disjoint_empty_left
  have hno : ∀ n ∈ (none : Option Name), n.1 = .memory := fun n hn => by cases hn
  unfold steps
  by_cases hflags : s.setFdFlags = true ∧ s.iolock = true
  · simp only [if_pos hflags, inInit]
    by_cases hin : s.eventCond = true ∧ s.replies = true
    · have hnew := hused.next_notMem .memory
      have hreplies : Disjoint (some (Resource.memory, (l.use fd).next)).toFinset names := by
        rw [Option.toFinset_some]
        exact Finset.disjoint_singleton_left.mpr hnew
      have hkind : ∀ n ∈ some (Resource.memory, (l.use fd).next), n.1 = .memory := by
        rintro n ⟨⟩
        rfl
      have hgains := (hused.acquire .memory).congr (Finset.insert_eq _ names)
      rw [← Option.toFinset_some] at hgains
      have hfd' := Finset.mem_union_right (some (Resource.memory, (l.use fd).next)).toFinset hfd
      simp only [if_pos hin]
      by_cases hout : s.outInit = true
      · rw [if_pos hout]
        by_cases hwrite : s.writeSetup = true
        · rw [if_pos hwrite]
          obtain ⟨ok, setup, l', hread, hkept, hsetup, hmemory⟩ :=
            s.answer.read_gains (hgains.use hfd') hfd'
          dsimp only [Ledger.acquire_fst]
          rw [hread]
          exact ⟨_, _, setup, l', rfl, hkept, hreplies, hsetup, hkind, hmemory⟩
        · rw [if_neg hwrite]
          exact ⟨_, _, none, _, rfl, hnone (hgains.use hfd'), hreplies, hempty _, hkind, hno⟩
      · rw [if_neg hout]
        exact ⟨_, _, none, _, rfl, hnone hgains, hreplies, hempty _, hkind, hno⟩
    · simp only [if_neg hin]
      exact ⟨_, none, none, _, rfl, hnone (hnone hused), hempty _, hempty _, hno, hno⟩
  · simp only [if_neg hflags]
    exact ⟨_, none, none, _, rfl, hnone (hnone hused), hempty _, hempty _, hno, hno⟩

/-- **`xcb_disconnect`** gives back what the connection holds. -/
theorem gains_disconnect {block fd : Name} {replies setup : Option Name}
    (h : l₀.Gains l (setup.toFinset ∪ (replies.toFinset ∪ insert block (insert fd names))))
    (hsetup : Disjoint setup.toFinset (replies.toFinset ∪ insert block (insert fd names)))
    (hreplies : Disjoint replies.toFinset (insert block (insert fd names)))
    (hblock : block ∉ insert fd names) (hfd : fd ∉ names) :
    l₀.Gains (disconnect ⟨block, fd, replies, setup⟩ l) names := by
  have hfreed := h.free hsetup
  obtain ⟨hne, hblock'⟩ := not_or.mp (mt Finset.mem_insert.mpr hblock)
  simp only [Finset.disjoint_insert_right] at hreplies
  have hall : replies.toFinset ∪ insert block (insert fd names) =
      insert fd (replies.toFinset ∪ insert block names) := by
    rw [Finset.insert_comm, Finset.union_insert]
  have hfd' : fd ∉ replies.toFinset ∪ insert block names := by
    simp only [Finset.mem_union, Finset.mem_insert, not_or]
    exact ⟨hreplies.2.1, Ne.symm hne, hfd⟩
  have hmem : fd ∈ insert fd (replies.toFinset ∪ insert block names) := Finset.mem_insert_self _ _
  have hclosed := ((hfreed.congr hall).use hmem).release_next hfd'
  have hdeleted := hclosed.free (Finset.disjoint_insert_right.mpr ⟨hreplies.1, hreplies.2.2⟩)
  exact hdeleted.release_next hblock'

/-- **`xcb_connect_to_fd`** owns the descriptor: it is part of the connection, or closed. -/
theorem Startup.connectToFd_gains {fd : Name} (h : l₀.Gains l (insert fd names)) (hfd : fd ∉ names)
    (s : Startup) : ∃ c l', s.connectToFd fd l = (c, l') ∧ l₀.Gains l' (ownedBy c ∪ names) ∧
      Disjoint (ownedBy c) names ∧ ∀ conn ∈ c, conn.OnlyFd fd := by
  unfold connectToFd
  by_cases hcalloc : s.calloc = true
  · rw [if_pos hcalloc]
    have hblock := h.next_notMem .memory
    have hmem : fd ∈ insert (Resource.memory, l.next) (insert fd names) :=
      Finset.mem_insert_of_mem (Finset.mem_insert_self _ _)
    obtain ⟨ok, replies, setup, l', hsteps, hgains, hreplies, hsetup, hkind, hkind'⟩ :=
      steps_gains (h.acquire .memory) hmem s
    dsimp only [Ledger.acquire_fst]
    rw [hsteps]
    cases ok with
    | true =>
      refine ⟨_, l', rfl, hgains.congr ?_, ?_, fun conn hconn => ?_⟩
      · ext x
        simp only [ownedBy, Option.elim_some, Conn.owned, Finset.mem_union, Finset.mem_insert]
        tauto
      · simp only [Finset.disjoint_insert_right, Finset.disjoint_union_right] at hreplies hsetup
        simp only [ownedBy, Option.elim_some, Conn.owned, Finset.disjoint_insert_left,
          Finset.disjoint_union_left]
        exact ⟨hfd, mt Finset.mem_insert_of_mem hblock, hsetup.2.2.2, hreplies.2.2⟩
      · cases hconn
        refine ⟨rfl, fun n hn hdescriptor => ?_⟩
        simp only [Conn.owned, Finset.mem_insert, Finset.mem_union, Option.mem_toFinset] at hn
        rcases hn with rfl | rfl | hn | hn
        · rfl
        · cases hdescriptor
        · exact absurd ((hkind' n hn).symm.trans hdescriptor) (by decide)
        · exact absurd ((hkind n hn).symm.trans hdescriptor) (by decide)
    | false =>
      have hfreed := gains_disconnect hgains hsetup hreplies hblock hfd
      exact ⟨none, _, rfl, hfreed.congr (Finset.empty_union names).symm,
        Finset.disjoint_empty_left _, fun conn hconn => by cases hconn⟩
  · rw [if_neg hcalloc]
    exact ⟨none, _, rfl, (h.release_next hfd).congr (Finset.empty_union names).symm,
      Finset.disjoint_empty_left _, fun conn hconn => by cases hconn⟩

/-! ### From a display name to a connection -/

/-- Host, and the protocol if there is one, are in memory; or nothing is. -/
def Parses (l₀ : Ledger Resource) (names : Finset Name) (r : Option Parsed × Ledger Resource) :
    Prop :=
  (∃ p l', r = (some p, l') ∧
      l₀.Gains l' (insert p.hostMemory (p.protocolMemory.toFinset ∪ names)) ∧
      Disjoint p.protocolMemory.toFinset names ∧
        p.hostMemory ∉ p.protocolMemory.toFinset ∪ names) ∨
    ∃ l', r = (none, l') ∧ l₀.Gains l' names

theorem parses_parseBehind {protocolMemory : Option Name}
    (h : l₀.Gains l (protocolMemory.toFinset ∪ names))
    (hdisjoint : Disjoint protocolMemory.toFinset names) (e : Host)
    (protocol : Option (List Char)) (name : List Char) :
    ∀ r ∈ e.parseBehind protocol protocolMemory name l, Parses l₀ names r := by
  unfold Host.parseBehind
  rintro r hr
  cases hfound : parseHost e.ulong name with
  | none =>
    rw [hfound] at hr
    cases hr
    exact .inr ⟨_, rfl, h.free hdisjoint⟩
  | some found =>
    rw [hfound] at hr
    dsimp only at hr
    cases hcopy : copyPart e.mallocHost found.1 with
    | none =>
      rw [hcopy] at hr
      cases hr
    | some copy =>
      rw [hcopy] at hr
      cases copy with
      | none =>
        cases hr
        exact .inr ⟨_, rfl, h.free hdisjoint⟩
      | some host =>
        cases hr
        exact .inl ⟨_, _, rfl, h.acquire .memory, hdisjoint, h.next_notMem .memory⟩

/-- **`_xcb_parse_display`** keeps the memory for host and protocol, or none. -/
theorem parses_parseDisplay (h : l₀.Gains l names) (e : Host) (name : Option (List Char)) :
    ∀ r ∈ e.parseDisplay name l, Parses l₀ names r := by
  unfold Host.parseDisplay
  rintro r hr
  cases htext : displayName name e.display with
  | none =>
    rw [htext] at hr
    cases hr
    exact .inr ⟨l, rfl, h⟩
  | some text =>
    rw [htext] at hr
    dsimp only at hr
    cases hsplit : splitProtocol text with
    | mk protocol rest =>
      rw [hsplit] at hr
      cases protocol with
      | none =>
        have hgains : l₀.Gains l ((none : Option Name).toFinset ∪ names) :=
          h.congr (Finset.empty_union names).symm
        exact parses_parseBehind hgains (Finset.disjoint_empty_left _) e none rest r hr
      | some protocol =>
        dsimp only at hr
        cases hcopy : copyPart e.mallocProtocol protocol with
        | none =>
          rw [hcopy] at hr
          cases hr
        | some copy =>
          rw [hcopy] at hr
          cases copy with
          | none =>
            cases hr
            exact .inr ⟨l, rfl, h⟩
          | some protocol =>
            refine parses_parseBehind ((h.acquire .memory).congr ?_) ?_ e (some protocol) rest r hr
            · rw [Option.toFinset_some, Finset.insert_eq, Ledger.acquire_fst]
            · rw [Option.toFinset_some, Finset.disjoint_singleton_left]
              exact h.next_notMem .memory

theorem insert_union_none (fd : Name) (names lost : Finset Name) :
    insert fd names ∪ (ownBlocks none ∪ lost) = insert fd (lost ∪ names) := by
  rw [ownBlocks, Option.elim_none, Finset.empty_union, Finset.insert_union, Finset.union_comm]

theorem insert_union_some (fd : Name) (names lost : Finset Name) (own : OwnAuth) :
    insert fd names ∪ (ownBlocks (some own) ∪ lost) =
      insert fd (insert own.name (insert own.data (lost ∪ names))) := by
  rw [ownBlocks, Option.elim_some, Finset.union_comm, Finset.union_insert, Finset.union_assoc,
    Finset.insert_union, Finset.insert_eq own.data (lost ∪ names)]

/-- **On a descriptor.** Of the authorization nothing is left, apart from an address whose pointer
has been overwritten. -/
theorem connectOn_gains {fd : Name} (h : l₀.Gains l (insert fd names)) (hfd : fd ∉ names) (e : Host)
    (auth : Option AuthInfo) (display : ℤ)
    (hsafe : auth = none → ¬ e.authority.FreesTwice display) :
    ∃ c l' lost, e.connectOn auth display fd l = (c, l') ∧
      l₀.Gains l' (ownedBy c ∪ (lost ∪ names)) ∧ Disjoint (ownedBy c) (lost ∪ names) ∧
      Disjoint lost names ∧ (∀ conn ∈ c, conn.OnlyFd fd) ∧
        (lost = ∅ ∨ auth = none ∧ e.authority.Overwrites display ∧ ∃ n, lost = {(.memory, n)}) := by
  unfold Host.connectOn
  cases auth with
  | some auth =>
    obtain ⟨c, l', hconnect, hgains, hdisjoint, hconn⟩ :=
      (e.startup (some auth)).connectToFd_gains h hfd
    rw [← Finset.empty_union names] at hgains hdisjoint
    exact ⟨c, l', ∅, hconnect, hgains, hdisjoint, Finset.disjoint_empty_left _, hconn, .inl rfl⟩
  | none =>
    obtain ⟨lost, hauth, hapart, hover, hkept⟩ :=
      (e.authority.getAuthInfo_cases display l).2 (hsafe rfl)
    have hlost : lost = ∅ ∨ (none : Option AuthInfo) = none ∧ e.authority.Overwrites display ∧
        ∃ n, lost = {(.memory, n)} := by
      by_cases hoverwrites : e.authority.Overwrites display
      · exact .inr ⟨rfl, hoverwrites, hover hoverwrites⟩
      · exact .inl (hkept hoverwrites)
    have hall := h.trans hauth
    have hnew := h.disjoint_trans hauth
    obtain ⟨result, l₁, hget⟩ : ∃ result l₁, e.authority.getAuthInfo display l = (result, l₁) :=
      ⟨_, _, rfl⟩
    rw [hget] at hall hnew hapart ⊢
    simp only [Finset.disjoint_insert_left, Finset.disjoint_union_right] at hnew
    obtain ⟨⟨hfdown, hnamesown⟩, hfdlost, hnameslost⟩ := hnew
    cases result with
    | none =>
      have hfd' : fd ∉ lost ∪ names := by
        rw [Finset.mem_union, not_or]
        exact ⟨hfdlost, hfd⟩
      obtain ⟨c, l', hconnect, hgains, hdisjoint, hconn⟩ :=
        (e.startup none).connectToFd_gains (hall.congr (insert_union_none fd names lost)) hfd'
      exact ⟨c, l', lost, hconnect, hgains, hdisjoint, hnameslost.symm, hconn, hlost⟩
    | some own =>
      have hdistinct := hapart.distinct own rfl
      have hapart' := hapart.disjoint
      simp only [ownBlocks, Option.elim_some, Finset.disjoint_insert_left,
        Finset.disjoint_insert_right, Finset.disjoint_singleton_left,
        Finset.disjoint_singleton_right, Finset.mem_insert, Finset.mem_singleton,
        not_or] at hapart' hnamesown hfdown
      have hname : own.name ∉ insert own.data (lost ∪ names) := by
        simp only [Finset.mem_insert, Finset.mem_union, not_or]
        exact ⟨hdistinct, hapart'.1, hnamesown.1⟩
      have hdata : own.data ∉ lost ∪ names := by
        simp only [Finset.mem_union, not_or]
        exact ⟨hapart'.2, hnamesown.2⟩
      have hfd' : fd ∉ insert own.name (insert own.data (lost ∪ names)) := by
        simp only [Finset.mem_insert, Finset.mem_union, not_or]
        exact ⟨hfdown.1, hfdown.2, hfdlost, hfd⟩
      obtain ⟨c, l', hconnect, hgains, hdisjoint, hconn⟩ :=
        (e.startup (some own.info)).connectToFd_gains
          (hall.congr (insert_union_some fd names lost own)) hfd'
      simp only [Finset.disjoint_insert_right] at hdisjoint
      dsimp only
      rw [hconnect]
      have hfreed := (hgains.release_union hdisjoint.1 hname).release_union hdisjoint.2.1 hdata
      exact ⟨c, _, lost, rfl, hfreed, hdisjoint.2.2, hnameslost.symm, hconn, hlost⟩

/-- What was made of a display name: a connection, and what the program holds besides. -/
def Holds (e : Host) (auth : Option AuthInfo) (c : Option Conn) (l l' : Ledger Resource) : Prop :=
  ∃ lost : Finset Name, l.Gains l' (ownedBy c ∪ lost) ∧ Disjoint (ownedBy c) lost ∧
    (∀ conn ∈ c, ∃ n, conn.OnlyFd (.descriptor, n)) ∧
      (lost = ∅ ∨ auth = none ∧ (∃ display, e.authority.Overwrites display) ∧
        ∃ n, lost = {(.memory, n)})

theorem holds_none {l' : Ledger Resource} (h : l.Gains l' ∅) (e : Host) (auth : Option AuthInfo) :
    Holds e auth none l l' :=
  ⟨∅, h, Finset.disjoint_empty_left _, (fun conn hconn => by cases hconn), .inl rfl⟩

theorem holds_connectToDisplay (e : Host) (name : Option (List Char)) (auth : Option AuthInfo)
    (screenp : Option ℤ) (l : Ledger Resource)
    (hsafe : auth = none → ∀ display, ¬ e.authority.FreesTwice display) :
    ∀ r ∈ e.connectToDisplay name auth screenp l, Holds e auth r.1 l r.2.2 := by
  unfold Host.connectToDisplay
  rintro r hr
  cases hresult : e.parseDisplay name l with
  | none =>
    rw [hresult] at hr
    cases hr
  | some result =>
    rw [hresult] at hr
    rcases parses_parseDisplay (.refl l) e name result hresult with
      ⟨p, l₁, rfl, hgains, hprotocol, hhost⟩ | ⟨l₁, rfl, hgains⟩
    · dsimp only at hr
      rcases opens_xcbOpen hgains e p.host p.protocol p.display with
        ⟨n, l₂, hopen, hn, hopened⟩ | ⟨l₂, hopen, hclosed⟩
      · rw [hopen] at hr
        obtain ⟨c, l₃, lost, hconnect, hall, howned, hlost, hfd, hcases⟩ :=
          connectOn_gains hopened hn e auth p.display fun h => hsafe h p.display
        dsimp only at hr
        rw [hconnect] at hr
        cases hr
        rw [← Finset.union_assoc] at hall
        simp only [Finset.disjoint_union_right, Finset.disjoint_insert_right] at howned hlost
        have hhost' : p.hostMemory ∉ ownedBy c ∪ lost := by
          rw [Finset.mem_union, not_or]
          exact ⟨howned.2.1, hlost.1⟩
        have hkept : Disjoint p.protocolMemory.toFinset (ownedBy c ∪ lost) := by
          rw [Finset.disjoint_union_right]
          exact ⟨howned.2.2.1.symm, hlost.2.1.symm⟩
        have hfreed := hall.release_union hhost' hhost
        rw [Finset.union_empty, Finset.union_comm] at hfreed
        refine ⟨lost, hfreed.free hkept, howned.1, fun conn hconn => ⟨n, hfd conn hconn⟩, ?_⟩
        exact hcases.imp_right fun h => ⟨h.1, ⟨_, h.2.1⟩, h.2.2⟩
      · rw [hopen] at hr
        cases hr
        exact holds_none ((hclosed.release_next hhost).free hprotocol) e auth
    · cases hr
      exact holds_none hgains e auth

/-- A name that is not too long is parsed, and so there is an answer. -/
theorem exists_connectToDisplay {e : Host} {name : Option (List Char)}
    (hlen : ∀ text ∈ displayName name e.display, text.length < 2 ^ 31 - 1)
    (auth : Option AuthInfo) (screenp : Option ℤ) (l : Ledger Resource) :
    ∃ r, e.connectToDisplay name auth screenp l = some r := by
  obtain ⟨⟨parsed, l₁⟩, hparse⟩ := Host.exists_parseDisplay hlen l
  rw [Host.connectToDisplay, hparse]
  cases parsed <;> exact ⟨_, rfl⟩

/-- **Descriptors.** The one of the connection is all that is open afterwards. -/
theorem Holds.descriptors {e : Host} {auth : Option AuthInfo} {c : Option Conn}
    {l' : Ledger Resource} (h : Holds e auth c l l') (n : ℕ) :
    (.descriptor, n) ∈ l'.held ↔
      (.descriptor, n) ∈ l.held ∨ ∃ conn ∈ c, conn.fd = (.descriptor, n) := by
  obtain ⟨lost, hgains, -, hconn, hcases⟩ := h
  have hlost : (Resource.descriptor, n) ∉ lost := by
    rcases hcases with rfl | ⟨-, -, m, rfl⟩
    · exact Finset.notMem_empty _
    · simp
  rw [hgains.held, Finset.mem_union, Finset.mem_union, or_iff_left hlost]
  refine or_congr_right ?_
  cases c with
  | none => simp [ownedBy]
  | some conn =>
    obtain ⟨m, hfd, hkind⟩ := hconn conn rfl
    constructor
    · intro hmem
      exact ⟨conn, rfl, hfd.trans (hkind _ hmem rfl).symm⟩
    · rintro ⟨conn', hconn', heq⟩
      cases hconn'
      rw [← heq]
      exact Finset.mem_insert_self _ _

/-- **Connecting.** In whatever way it fails, everything is given back; and when it succeeds,
everything but the connection, with its descriptor. Only the address of the peer may be lost. With a
name that is not too long for an `int`, there is nothing undefined on the way. -/
theorem connectToDisplay_keeps (e : Host) (name : Option (List Char)) (auth : Option AuthInfo)
    (screenp : Option ℤ) (l : Ledger Resource)
    (hsafe : auth = none → ∀ display, ¬ e.authority.FreesTwice display) :
    ((∀ text ∈ displayName name e.display, text.length < 2 ^ 31 - 1) →
        ∃ r, e.connectToDisplay name auth screenp l = some r) ∧
      ∀ r ∈ e.connectToDisplay name auth screenp l, Holds e auth r.1 l r.2.2 ∧
        ∀ n, (.descriptor, n) ∈ r.2.2.held ↔
          (.descriptor, n) ∈ l.held ∨ ∃ conn ∈ r.1, conn.fd = (.descriptor, n) := by
  refine ⟨fun hlen => exists_connectToDisplay hlen auth screenp l, fun r hr => ?_⟩
  have h := holds_connectToDisplay e name auth screenp l hsafe r hr
  exact ⟨h, h.descriptors⟩

end gains

/-- A client that finds no authorization, and a server that listens on `/tmp/.X11-unix/X0` only. -/
def plainHost : Host where
  build := ⟨true, true, true⟩
  ulong := 64
  display := some [':', '0']
  mallocProtocol := true
  mallocHost := true
  mallocFile := true
  getaddrinfo := fun _ => none
  unix := fun path => ⟨none, none, if path = Host.unixPath 0 then none else some .enoent⟩
  abstract := fun _ => ⟨none, none, some .econnrefused⟩
  errno := .other
  authority :=
    { peer := ⟨.unix, false, none, .failed, none⟩, sock := ⟨.unix, false, none, .failed, none⟩
      hostname := none, best := fun _ => none, mallocName := true, mallocData := true
      hasXdmAuth := false, wrap := fun _ block => block, behind := [], nonce := 0, pid := 0
      now := 0 }
  startup := fun _ =>
    { calloc := true, setFdFlags := true, iolock := true, eventCond := true, replies := true
      outInit := true, writeSetup := true, answer := ⟨true, true, .moved, true, true⟩
      extInit := true, xidInit := true }

/-- The descriptor of the abstract socket is closed, that of the other one is open. -/
theorem connectToDisplay_plainHost :
    ∃ r, plainHost.connectToDisplay none none (some 7) .new = some r ∧
      r.1 = some ⟨(.memory, 4), (.descriptor, 3), some (.memory, 5), some (.memory, 7)⟩ ∧
        Holds plainHost none r.1 .new r.2.2 := by
  obtain ⟨hdefined, hkeeps⟩ := connectToDisplay_keeps plainHost none none (some 7) .new (by
    rintro - display (hstale | ⟨-, hstale⟩)
    · exact absurd hstale.1 Bool.false_ne_true
    · exact absurd hstale.1 Bool.false_ne_true)
  obtain ⟨r, hr⟩ := hdefined (by
    rintro text ⟨⟩
    decide)
  have hconn : (plainHost.connectToDisplay none none (some 7) .new).map (·.1) =
      some (some ⟨(.memory, 4), (.descriptor, 3), some (.memory, 5), some (.memory, 7)⟩) := by
    decide +kernel
  rw [hr] at hconn
  exact ⟨r, hr, Option.some_inj.mp hconn, (hkeeps r hr).1⟩

end Xcb
