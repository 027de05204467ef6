import Xcb.Setup
import Xcb.Internal.Ledger

/-!
# Authorization: `xcb_auth.c`

What a client shows the server comes from a file, which another library reads. The functions here
say where to look in it: for the host of the peer, or for the own host if the connection is a local
one. A peer may have an IPv4 address inside an IPv6 address, and is then looked up as an IPv4 peer.

The addresses of both ends of the connection are in memory that is allocated for them. One of them
is never freed: the second overwrites the pointer to the first.

## What is parameter

* `best` is `XauGetBestAuthByAddr`, and `wrap` is `XdmcpWrap`.
* `Authority` has what the system returns at each place where it is asked.

## Main definitions

* `getAuthptr` — what `get_authptr` looks for
* `getPeerSockName` — `get_peer_sock_name`
* `Authority.computeAuth` — `compute_auth`
* `Authority.getAuthInfo` — `_xcb_get_auth_info`
* `Authority.Overwrites`, `Authority.FreesTwice` — when memory is lost, and when it is freed twice

## Main results

* `Authority.getAuthInfo_unmap` — an IPv4 address in an IPv6 address counts as an IPv4 address
* `Authority.getAuthInfo_cases` — what is allocated and not freed
-/

namespace Xcb

/-! ### Addresses -/

/-- `struct sockaddr`: an address and a port, as they are in memory. -/
inductive Sockaddr
  | inet (addr : Vector UInt8 4) (port : Vector UInt8 2)
  | inet6 (addr : Vector UInt8 16) (port : Vector UInt8 2)
  | unix
  | other
  deriving DecidableEq

/-- `IN6_IS_ADDR_V4MAPPED` -/
def isV4Mapped (addr : Vector UInt8 16) : Bool :=
  addr.toList.take 12 == List.replicate 10 0 ++ [0xff, 0xff]

/-- `IN6_IS_ADDR_LOOPBACK` -/
def isLoopback6 (addr : Vector UInt8 16) : Bool :=
  addr.toList == List.replicate 15 0 ++ [1]

/-- `INADDR_LOOPBACK`, in network order. -/
def inaddrLoopback : List UInt8 := [127, 0, 0, 1]

/-- `FamilyLocal` -/
def familyLocal : ℕ := 256

/-- `XCB_FAMILY_INTERNET` -/
def familyInternet : ℕ := 0

/-- `XCB_FAMILY_INTERNET_6` -/
def familyInternet6 : ℕ := 6

/-- `%d` -/
def decimal (n : ℤ) : List Char :=
  if n < 0 then '-' :: Nat.toDigits 10 n.natAbs else Nat.toDigits 10 n.natAbs

/-- The arguments of `XauGetBestAuthByAddr`, apart from the names of the protocols. -/
structure AuthKey where
  family : ℕ
  address : List UInt8
  number : List Char
  deriving DecidableEq, Repr

/-- Family and address of an internet address; `none` is the family of local addresses. -/
def inetKey (addr : List UInt8) : Option (ℕ × List UInt8) :=
  if addr = inaddrLoopback then none else some (familyInternet, addr)

/-- The `switch` of `get_authptr`. A mapped address falls through to the next case. -/
def addressKey : Sockaddr → Option (Option (ℕ × List UInt8))
  | .inet6 addr _ =>
    if isV4Mapped addr then some (inetKey (addr.toList.drop 12))
    else some (if isLoopback6 addr then none else some (familyInternet6, addr.toList))
  | .inet addr _ => some (inetKey addr.toList)
  | .unix => some none
  | .other => none

/-- `get_authptr`, up to the call of `XauGetBestAuthByAddr`. Whatever `hostname` is, the name of a
host is not looked up for a remote peer. -/
def getAuthptr (sockname : Sockaddr) (display : ℤ) (hostname : Option (List UInt8)) :
    Option AuthKey :=
  match addressKey sockname with
  | none => none
  | some (some (family, address)) => some ⟨family, address, decimal display⟩
  | some none => hostname.map fun name => ⟨familyLocal, name, decimal display⟩

/-! ### The data -/

/-- `Xauth`: an entry of the file. -/
structure Xauth where
  name : List UInt8
  data : List UInt8
  deriving DecidableEq, Repr

/-- `AUTH_PROTO_MIT_MAGIC_COOKIE` -/
def mitMagicCookie : List UInt8 :=
  ['M', 'I', 'T', '-', 'M', 'A', 'G', 'I', 'C', '-', 'C', 'O', 'O', 'K', 'I', 'E', '-', '1'].map
    fun c => UInt8.ofNat c.toNat

/-- `AUTH_PROTO_XDM_AUTHORIZATION` -/
def xdmAuthorization : List UInt8 :=
  (['X', 'D', 'M', '-', 'A', 'U', 'T', 'H', 'O', 'R', 'I', 'Z', 'A', 'T', 'I', 'O', 'N'] ++
    ['-', '1']).map fun c => UInt8.ofNat c.toNat

/-- `htonl` -/
def htonl (n : BitVec 32) : List UInt8 := (bytes32 n).reverse

/-- `htons` -/
def htons (n : BitVec 16) : List UInt8 := (bytes16 n).reverse

/-- The address and the port that go into the data of `XDM-AUTHORIZATION-1`. A local connection has
none, and gets numbers that no other one has. -/
def xdmAddress (nonce : BitVec 32) (pid : BitVec 16) : Sockaddr → Option (List UInt8)
  | .inet addr port => some (addr.toList ++ port.toList)
  | .inet6 addr port =>
    if isV4Mapped addr then some (addr.toList.drop 12 ++ port.toList)
    else some (List.replicate 6 0)
  | .unix => some (htonl (0xffffffff - nonce) ++ htons pid)
  | .other => none

/-- What is encrypted: 192 bits. The data are not checked to be long enough; `behind` is what is in
memory behind them. -/
def xdmBlock (data behind address : List UInt8) (now : BitVec 32) : List UInt8 :=
  let block := (data ++ behind).take 8 ++ address ++ htonl now
  block ++ List.replicate (192 / 8 - block.length) 0

/-! ### What the system returns -/

/-- What has to be given back. -/
inductive Resource
  | memory
  /-- what `XauGetBestAuthByAddr` returns -/
  | authptr
  /-- what `getaddrinfo` returns -/
  | addrinfo
  | descriptor
  deriving DecidableEq

/-- One of them. -/
abbrev Name := Resource × ℕ

/-- What comes of a `realloc`. -/
inductive Realloc
  | failed
  | inPlace
  | moved
  deriving DecidableEq, Repr

/-- A call of `get_peer_sock_name`: the address, whether `malloc` and `realloc` grant memory for it,
and the length that each call of `socket_func` stores, `none` where it fails. -/
structure SockName where
  address : Sockaddr
  malloc : Bool
  first : Option ℕ
  realloc : Realloc
  second : Option ℕ
  deriving DecidableEq

/-- What `_xcb_get_auth_info` finds. -/
structure Authority where
  peer : SockName
  sock : SockName
  hostname : Option (List UInt8)
  best : AuthKey → Option Xauth
  mallocName : Bool
  mallocData : Bool
  /-- `HASXDMAUTH` -/
  hasXdmAuth : Bool
  wrap : List UInt8 → List UInt8 → List UInt8
  behind : List UInt8
  nonce : BitVec 32
  pid : BitVec 16
  now : BitVec 32

/-- `xcb_auth_info_t`, with the memory that has name and data. -/
structure OwnAuth where
  info : AuthInfo
  name : Name
  data : Name

/-! ### The functions -/

/-- `memdup`: nothing is allocated for no bytes. -/
def memdup (src : List UInt8) (malloc : Bool) (l : Ledger Resource) :
    Option Name × Ledger Resource :=
  if src ≠ [] ∧ malloc then (some (l.acquire .memory).1, (l.acquire .memory).2) else (none, l)

/-- The room for an address: `sizeof(struct sockaddr) + INITIAL_SOCKNAME_SLACK`. -/
def socknamelen : ℕ := 16 + 108

/-- `get_peer_sock_name` -/
def getPeerSockName (s : SockName) (l : Ledger Resource) : Option Name × Ledger Resource :=
  if s.malloc then
    let (sockname, l) := l.acquire .memory
    match s.first with
    | none => (none, l.release sockname)
    | some len =>
      if len > socknamelen then
        match s.realloc with
        | .failed => (none, l.release sockname)
        | .inPlace =>
          if s.second.any (· ≤ len) then (some sockname, l) else (none, l.release sockname)
        | .moved =>
          let (newSockname, l) := (l.release sockname).acquire .memory
          if s.second.any (· ≤ len) then (some newSockname, l)
          -- it is the old address that is freed
          else (none, l.release sockname)
      else (some sockname, l)
  else (none, l)

namespace Authority

/-- `compute_auth`: the data, and the memory that has them. -/
def computeAuth (e : Authority) (xauth : Xauth) (sockname : Sockaddr) (l : Ledger Resource) :
    Option (List UInt8 × Name) × Ledger Resource :=
  if xauth.name = mitMagicCookie then
    let (data, l) := memdup xauth.data e.mallocData l
    (data.map (xauth.data, ·), l)
  else if e.hasXdmAuth ∧ xauth.name = xdmAuthorization then
    if e.mallocData then
      let (data, l) := l.acquire .memory
      match xdmAddress e.nonce e.pid sockname with
      | some address =>
        (some (e.wrap ((xauth.data ++ e.behind).drop 8)
          (xdmBlock xauth.data e.behind address e.now), data), l)
      | none => (none, l.release data)
    else (none, l)
  else (none, l)

/-- The end of `_xcb_get_auth_info`, with the address at hand. -/
def finishAuth (e : Authority) (xauth : Xauth) (address : Sockaddr) (sockname authptr name : Name)
    (l : Ledger Resource) : Option OwnAuth × Ledger Resource :=
  match e.computeAuth xauth address l with
  | (some (data, memory), l) =>
    (some ⟨⟨xauth.name, data⟩, name, memory⟩, (l.release sockname).release authptr)
  | (none, l) => (none, ((l.release name).release sockname).release authptr)

/-- `_xcb_get_auth_info`, from `get_authptr` on. What that returns has to be given back too. -/
def findAuth (e : Authority) (display : ℤ) (address : Sockaddr) (sockname : Name)
    (gotsockname : Bool) (l : Ledger Resource) : Option OwnAuth × Ledger Resource :=
  match (getAuthptr address display e.hostname).bind e.best with
  | none => (none, l.release sockname)
  | some xauth =>
    let (authptr, l) := l.acquire .authptr
    match memdup xauth.name e.mallocName l with
    | (none, l) => (none, (l.release sockname).release authptr)
    | (some name, l) =>
      if gotsockname then e.finishAuth xauth address sockname authptr name l
      else
        -- `sockname` is assigned again
        match getPeerSockName e.sock l with
        | (some sockname, l) => e.finishAuth xauth e.sock.address sockname authptr name l
        | (none, l) => (none, (l.release name).release authptr)

/-- `_xcb_get_auth_info`, without the name of a peer: some systems have none for local sockets. -/
def getLocalAuth (e : Authority) (display : ℤ) (l : Ledger Resource) :
    Option OwnAuth × Ledger Resource :=
  match getPeerSockName e.sock l with
  | (none, l) => (none, l)
  | (some sockname, l) =>
    if e.sock.address = .unix then e.findAuth display e.sock.address sockname true l
    else (none, l.release sockname)

/-- `_xcb_get_auth_info` -/
def getAuthInfo (e : Authority) (display : ℤ) (l : Ledger Resource) :
    Option OwnAuth × Ledger Resource :=
  match getPeerSockName e.peer l with
  | (some sockname, l) => e.findAuth display e.peer.address sockname false l
  | (none, l) => e.getLocalAuth display l

end Authority

/-! ### IPv4 addresses in IPv6 addresses -/

/-- The IPv4 address that is in an address. -/
def Sockaddr.unmap : Sockaddr → Sockaddr
  | .inet6 addr port => if isV4Mapped addr then .inet (addr.drop 12) port else .inet6 addr port
  | sockname => sockname

theorem toList_mapped (addr : Vector UInt8 16) :
    (addr.drop 12 : Vector UInt8 4).toList = addr.toList.drop 12 := Vector.toList_drop

theorem addressKey_unmap (sockname : Sockaddr) :
    addressKey sockname.unmap = addressKey sockname := by
  cases sockname with
  | inet6 addr port =>
    by_cases h : isV4Mapped addr = true
    · simp only [Sockaddr.unmap, addressKey, h, if_true, toList_mapped]
    · simp [Sockaddr.unmap, addressKey, h]
  | inet | unix | other => rfl

theorem xdmAddress_unmap (nonce : BitVec 32) (pid : BitVec 16) (sockname : Sockaddr) :
    xdmAddress nonce pid sockname.unmap = xdmAddress nonce pid sockname := by
  cases sockname with
  | inet6 addr port =>
    by_cases h : isV4Mapped addr = true
    · simp only [Sockaddr.unmap, xdmAddress, h, if_true, toList_mapped]
    · simp [Sockaddr.unmap, xdmAddress, h]
  | inet | unix | other => rfl

theorem unmap_eq_unix_iff {sockname : Sockaddr} : sockname.unmap = .unix ↔ sockname = .unix := by
  cases sockname with
  | inet6 addr port => by_cases h : isV4Mapped addr = true <;> simp [Sockaddr.unmap, h]
  | inet | unix | other => simp [Sockaddr.unmap]

namespace Authority

/-- The same connection, as IPv4 sees it. -/
def unmap (e : Authority) : Authority :=
  { e with
    peer := { e.peer with address := e.peer.address.unmap }
    sock := { e.sock with address := e.sock.address.unmap } }

theorem computeAuth_unmap (e : Authority) (xauth : Xauth) (sockname : Sockaddr) :
    e.unmap.computeAuth xauth sockname.unmap = e.computeAuth xauth sockname := by
  funext l
  simp only [computeAuth, unmap, xdmAddress_unmap]

theorem finishAuth_unmap (e : Authority) (xauth : Xauth) (address : Sockaddr) :
    e.unmap.finishAuth xauth address.unmap = e.finishAuth xauth address := by
  funext sockname authptr name l
  simp only [finishAuth, computeAuth_unmap]

theorem findAuth_unmap (e : Authority) (display : ℤ) (address : Sockaddr) :
    e.unmap.findAuth display address.unmap = e.findAuth display address := by
  have hsock : getPeerSockName e.unmap.sock = getPeerSockName e.sock := rfl
  have hfinish : ∀ xauth, e.unmap.finishAuth xauth e.unmap.sock.address =
    e.finishAuth xauth e.sock.address := fun xauth => finishAuth_unmap e xauth e.sock.address
  funext sockname gotsockname l
  simp only [findAuth, getAuthptr, addressKey_unmap, finishAuth_unmap, hfinish, hsock]
  rfl

/-- **An IPv4 address in an IPv6 address counts as an IPv4 address**: what is looked up, what is
computed from it, and what happens to memory are the same. -/
theorem getAuthInfo_unmap (e : Authority) (display : ℤ) :
    e.unmap.getAuthInfo display = e.getAuthInfo display := by
  have hpeer : getPeerSockName e.unmap.peer = getPeerSockName e.peer := rfl
  have hsock : getPeerSockName e.unmap.sock = getPeerSockName e.sock := rfl
  have hfind : e.unmap.findAuth display e.unmap.peer.address =
    e.findAuth display e.peer.address := findAuth_unmap e display e.peer.address
  have hfind' : e.unmap.findAuth display e.unmap.sock.address =
    e.findAuth display e.sock.address := findAuth_unmap e display e.sock.address
  have hunix : e.unmap.sock.address = .unix ↔ e.sock.address = .unix := unmap_eq_unix_iff
  funext l
  simp only [getAuthInfo, getLocalAuth, hpeer, hsock, hfind, hfind', hunix]

end Authority

/-! ### Memory -/

/-- The call returns an address. -/
def SockName.Found (s : SockName) : Prop :=
  s.malloc = true ∧ ∃ len, s.first = some len ∧
    (len ≤ socknamelen ∨ s.realloc ≠ .failed ∧ s.second.any (· ≤ len) = true)

/-- The address was too long for the first buffer, the buffer has been moved, and the second call
fails. -/
def SockName.Stale (s : SockName) : Prop :=
  s.malloc = true ∧ ∃ len, s.first = some len ∧ socknamelen < len ∧ s.realloc = .moved ∧
    s.second.any (· ≤ len) = false

theorem SockName.Found.not_stale {s : SockName} (h : s.Found) : ¬ s.Stale := by
  obtain ⟨-, len, hlen, hfits⟩ := h
  rintro ⟨-, len', hlen', hlong, -, hsecond⟩
  obtain rfl : len = len' := Option.some_inj.mp (hlen.symm.trans hlen')
  rcases hfits with hshort | ⟨-, hfits⟩
  · exact hlong.not_ge hshort
  · exact absurd (hsecond.symm.trans hfits) Bool.false_ne_true

section gains

variable {l₀ l : Ledger Resource} {names : Finset Name}

theorem memdup_cases (h : l₀.Gains l names) (src : List UInt8) (malloc : Bool) :
    (src ≠ [] ∧ malloc = true) ∧ (∃ n l', memdup src malloc l = (some n, l') ∧ n ∉ names ∧
        l₀.Gains l' (insert n names)) ∨
      ¬ (src ≠ [] ∧ malloc = true) ∧ memdup src malloc l = (none, l) := by
  by_cases hgo : src ≠ [] ∧ malloc = true
  · exact .inl ⟨hgo, _, _, if_pos hgo, h.next_notMem .memory, h.acquire .memory⟩
  · exact .inr ⟨hgo, if_neg hgo⟩

/-- **`get_peer_sock_name`** returns memory that the caller has to free, or leaves nothing behind,
or frees what it does not have. -/
theorem getPeerSockName_cases (h : l₀.Gains l names) (s : SockName) :
    s.Found ∧ (∃ n l', getPeerSockName s l = (some (.memory, n), l') ∧ (.memory, n) ∉ names ∧
        l₀.Gains l' (insert (.memory, n) names)) ∨
      (¬ s.Found ∧ ¬ s.Stale) ∧ (∃ l', getPeerSockName s l = (none, l') ∧ l₀.Gains l' names) ∨
      (¬ s.Found ∧ s.Stale) ∧ ∃ l', getPeerSockName s l = (none, l') ∧ l'.sound = false := by
  have hnew := h.next_notMem .memory
  have hfreed := (h.acquire .memory).release_next hnew
  rw [getPeerSockName]
  by_cases hmalloc : s.malloc = true
  · rw [if_pos hmalloc]
    dsimp only [Ledger.acquire_fst]
    cases hfirst : s.first with
    | none =>
      refine .inr (.inl ⟨⟨?_, ?_⟩, _, rfl, hfreed⟩)
      · rintro ⟨-, len, hlen, -⟩
        simp [hfirst] at hlen
      · rintro ⟨-, len, hlen, -⟩
        simp [hfirst] at hlen
    | some len =>
      by_cases hfits : len ≤ socknamelen
      · refine .inl ⟨⟨hmalloc, len, hfirst, .inl hfits⟩, _, _, ?_, hnew, h.acquire .memory⟩
        exact if_neg (not_lt.mpr hfits)
      · have hlong := Nat.lt_of_not_le hfits
        have hfound : s.Found ↔ s.realloc ≠ .failed ∧ s.second.any (· ≤ len) = true := by
          simp [SockName.Found, hmalloc, hfirst, hlong]
        have hstale : s.Stale ↔ s.realloc = .moved ∧ s.second.any (· ≤ len) = false := by
          simp [SockName.Stale, hmalloc, hfirst, hlong]
        rw [hfound, hstale]
        simp only [gt_iff_lt, if_pos hlong]
        cases s.realloc with
        | failed => exact .inr (.inl ⟨by simp, _, rfl, hfreed⟩)
        | inPlace =>
          cases hsecond : s.second.any (· ≤ len) with
          | true => exact .inl ⟨by simp, _, _, rfl, hnew, h.acquire .memory⟩
          | false => exact .inr (.inl ⟨by simp, _, rfl, hfreed⟩)
        | moved =>
          cases hsecond : s.second.any (· ≤ len) with
          | true =>
            exact .inl ⟨by simp, _, _, rfl, hfreed.next_notMem .memory, hfreed.acquire .memory⟩
          | false =>
            -- the memory that was moved is not there any more
            exact .inr (.inr ⟨by simp, _, rfl, by simp⟩)
  · refine .inr (.inl ⟨⟨fun hfound => hmalloc hfound.1, fun hstale => hmalloc hstale.1⟩, l, ?_, h⟩)
    rw [if_neg hmalloc]

/-- The memory of a result. -/
def ownBlocks (result : Option OwnAuth) : Finset Name :=
  result.elim ∅ fun own => {own.name, own.data}

/-- Name and data are in two parts of memory, and none of these is in `names`. -/
structure Apart (result : Option OwnAuth) (names : Finset Name) : Prop where
  disjoint : Disjoint (ownBlocks result) names
  distinct : ∀ own ∈ result, own.name ≠ own.data

theorem apart_none (names : Finset Name) : Apart none names :=
  ⟨Finset.disjoint_empty_left _, fun own h => by cases h⟩

namespace Authority

variable {e : Authority}

theorem computeAuth_cases (h : l₀.Gains l names) (e : Authority) (xauth : Xauth)
    (sockname : Sockaddr) :
    (∃ data n l', e.computeAuth xauth sockname l = (some (data, n), l') ∧ n ∉ names ∧
        l₀.Gains l' (insert n names)) ∨
      ∃ l', e.computeAuth xauth sockname l = (none, l') ∧ l₀.Gains l' names := by
  have hnew := h.next_notMem .memory
  unfold computeAuth
  by_cases hmagic : xauth.name = mitMagicCookie
  · rw [if_pos hmagic]
    rcases memdup_cases h xauth.data e.mallocData with
      ⟨-, n, l', hdup, hn, hgains⟩ | ⟨-, hdup⟩
    · exact .inl ⟨xauth.data, n, l', by rw [hdup]; rfl, hn, hgains⟩
    · exact .inr ⟨l, by rw [hdup]; rfl, h⟩
  · rw [if_neg hmagic]
    by_cases hxdm : e.hasXdmAuth = true ∧ xauth.name = xdmAuthorization
    · rw [if_pos hxdm]
      by_cases hmalloc : e.mallocData = true
      · rw [if_pos hmalloc]
        dsimp only [Ledger.acquire_fst]
        cases xdmAddress e.nonce e.pid sockname with
        | some address => exact .inl ⟨_, _, _, rfl, hnew, h.acquire .memory⟩
        | none => exact .inr ⟨_, rfl, (h.acquire .memory).release_next hnew⟩
      · exact .inr ⟨l, if_neg hmalloc, h⟩
    · exact .inr ⟨l, if_neg hxdm, h⟩

/-- Whatever comes of it, address, entry and name are taken care of. -/
theorem finishAuth_gains {sockname authptr name : Name}
    (h : l₀.Gains l (insert name (insert sockname (insert authptr names))))
    (hauthptr : authptr ∉ names) (hsockname : sockname ∉ insert authptr names)
    (hname : name ∉ insert sockname (insert authptr names)) (e : Authority) (xauth : Xauth)
    (address : Sockaddr) :
    ∃ result l', e.finishAuth xauth address sockname authptr name l = (result, l') ∧
      l₀.Gains l' (ownBlocks result ∪ names) ∧ Apart result names := by
  unfold finishAuth
  rcases computeAuth_cases h e xauth address with
    ⟨data, n, l', hcompute, hn, hgains⟩ | ⟨l', hcompute, hgains⟩
  · rw [hcompute]
    simp only [Finset.mem_insert, not_or] at hauthptr hsockname hname hn
    have hboth : insert n (insert name (insert sockname (insert authptr names))) =
        insert sockname (insert authptr (insert n (insert name names))) := by
      ext x
      simp only [Finset.mem_insert]
      tauto
    have hsock : sockname ∉ insert authptr (insert n (insert name names)) := by
      simp only [Finset.mem_insert, not_or]
      exact ⟨hsockname.1, Ne.symm hn.2.1, Ne.symm hname.1, hsockname.2⟩
    have hauth : authptr ∉ insert n (insert name names) := by
      simp only [Finset.mem_insert, not_or]
      exact ⟨Ne.symm hn.2.2.1, Ne.symm hname.2.1, hauthptr⟩
    have hfreed := ((hgains.congr hboth).release_next hsock).release_next hauth
    refine ⟨_, _, rfl, hfreed.congr ?_, ?_⟩
    · ext x
      simp only [ownBlocks, Option.elim_some, Finset.mem_insert, Finset.mem_union,
        Finset.mem_singleton]
      tauto
    · refine ⟨?_, fun own hown => ?_⟩
      · simp only [ownBlocks, Option.elim_some, Finset.disjoint_insert_left,
          Finset.disjoint_singleton_left]
        exact ⟨hname.2.2, hn.2.2.2⟩
      · cases hown
        exact Ne.symm hn.1
  · rw [hcompute]
    have hfreed := ((hgains.release_next hname).release_next hsockname).release_next hauthptr
    exact ⟨none, _, rfl, hfreed.congr (Finset.empty_union _).symm, apart_none names⟩

/-- There is an entry for this address, and room for its name. -/
def Authorizes (e : Authority) (display : ℤ) (address : Sockaddr) : Prop :=
  ∃ xauth, (getAuthptr address display e.hostname).bind e.best = some xauth ∧
    xauth.name ≠ [] ∧ e.mallocName = true

/-- **From `get_authptr` on.** Where the pointer to the address is assigned again, it is lost. -/
theorem findAuth_cases {sockname : Name} (h : l₀.Gains l (insert sockname names))
    (hsockname : sockname ∉ names) (e : Authority) (display : ℤ) (address : Sockaddr)
    (gotsockname : Bool) :
    let lost := e.Authorizes display address ∧ gotsockname = false
    ∃ result l', e.findAuth display address sockname gotsockname l = (result, l') ∧
      (lost ∧ e.sock.Stale → l'.sound = false) ∧
      (lost → ¬ e.sock.Stale → l₀.Gains l' (ownBlocks result ∪ insert sockname names) ∧
        Apart result (insert sockname names)) ∧
      (¬ lost → l₀.Gains l' (ownBlocks result ∪ names) ∧ Apart result names) := by
  intro lost
  have hnone : ∀ {l' : Ledger Resource} {kept : Finset Name}, l₀.Gains l' kept →
      l₀.Gains l' (ownBlocks none ∪ kept) ∧ Apart none kept := fun hkept =>
    ⟨hkept.congr (Finset.empty_union _).symm, apart_none _⟩
  unfold findAuth
  cases hbest : (getAuthptr address display e.hostname).bind e.best with
  | none =>
    have hkeeps : ¬ lost := by
      rintro ⟨⟨xauth, hxauth, -⟩, -⟩
      simp [hbest] at hxauth
    exact ⟨none, _, rfl, fun h => absurd h.1 hkeeps, fun h => absurd h hkeeps,
      fun _ => hnone (h.release_next hsockname)⟩
  | some xauth =>
    have hauthptr := h.next_notMem .authptr
    obtain ⟨hauthptr', hauth⟩ := not_or.mp (mt Finset.mem_insert.mpr hauthptr)
    have hsock : sockname ∉ insert (.authptr, l.next) names := by
      simp only [Finset.mem_insert, not_or]
      exact ⟨Ne.symm hauthptr', hsockname⟩
    have hinner : insert (.authptr, l.next) (insert sockname names) =
        insert sockname (insert (.authptr, l.next) names) :=
      Finset.insert_comm _ _ _
    dsimp only [Ledger.acquire_fst]
    rcases memdup_cases (h.acquire .authptr) xauth.name e.mallocName with
      ⟨hgo, name, l', hdup, hname, hgains⟩ | ⟨hstop, hdup⟩
    · rw [hdup]
      dsimp only
      cases gotsockname with
      | true =>
        have hkeeps : ¬ lost := fun h => absurd h.2.symm Bool.false_ne_true
        rw [hinner] at hgains hname
        obtain ⟨result, l'', hfinish, hkept⟩ :=
          finishAuth_gains hgains hauth hsock hname e xauth address
        exact ⟨result, l'', hfinish, fun h => absurd h.1 hkeeps, fun h => absurd h hkeeps,
          fun _ => hkept⟩
      | false =>
        have hlost : lost := ⟨⟨xauth, hbest, hgo⟩, rfl⟩
        rw [if_neg Bool.false_ne_true]
        rcases getPeerSockName_cases hgains e.sock with
          ⟨hfound, again, u, hget, hagain, hgains'⟩ | ⟨hneither, u, hget, hgains'⟩ |
            ⟨hstale, u, hget, hsound⟩
        · -- `sockname` is the address that was found now
          rw [hget]
          have hagain' := mt Finset.mem_insert_of_mem hagain
          have hname' : name ∉ insert (.memory, again)
              (insert (.authptr, l.next) (insert sockname names)) := by
            rw [Finset.mem_insert, not_or]
            exact ⟨fun heq => hagain (heq ▸ Finset.mem_insert_self _ _), hname⟩
          rw [Finset.insert_comm] at hgains'
          obtain ⟨result, l'', hfinish, hkept⟩ :=
            finishAuth_gains hgains' hauthptr hagain' hname' e xauth e.sock.address
          exact ⟨result, l'', hfinish, fun h => absurd h.2 hfound.not_stale, fun _ _ => hkept,
            fun h => absurd hlost h⟩
        · rw [hget]
          have hfreed := (hgains'.release_next hname).release_next hauthptr
          exact ⟨none, _, rfl, fun h => absurd h.2 hneither.2, fun _ _ => hnone hfreed,
            fun h => absurd hlost h⟩
        · rw [hget]
          refine ⟨none, _, rfl, fun _ => by simp [hsound], fun _ h => absurd hstale.2 h,
            fun h => absurd hlost h⟩
    · rw [hdup]
      have hkeeps : ¬ lost := by
        rintro ⟨⟨xauth', hxauth, hgo⟩, -⟩
        rw [hbest, Option.some_inj] at hxauth
        exact hstop (hxauth ▸ hgo)
      have hfreed := (((h.acquire .authptr).congr hinner).release_next hsock).release_next hauth
      exact ⟨none, _, rfl, fun h => absurd h.1 hkeeps, fun h => absurd h hkeeps,
        fun _ => hnone hfreed⟩

theorem getLocalAuth_cases (e : Authority) (display : ℤ) (l : Ledger Resource) :
    (e.sock.Stale → (e.getLocalAuth display l).2.sound = false) ∧
      (¬ e.sock.Stale →
        l.Gains (e.getLocalAuth display l).2 (ownBlocks (e.getLocalAuth display l).1 ∪ ∅) ∧
          Apart (e.getLocalAuth display l).1 ∅) := by
  unfold getLocalAuth
  rcases getPeerSockName_cases (.refl l) e.sock with
    ⟨hfound, n, u, hget, hn, hgains⟩ | ⟨hneither, u, hget, hgains⟩ | ⟨hstale, u, hget, hsound⟩
  · rw [hget]
    refine ⟨fun h => absurd h hfound.not_stale, fun _ => ?_⟩
    dsimp only
    by_cases hunix : e.sock.address = .unix
    · rw [if_pos hunix]
      obtain ⟨result, l', hfind, -, -, hkept⟩ :=
        findAuth_cases hgains hn e display e.sock.address true
      rw [hfind]
      exact hkept fun h => absurd h.2.symm Bool.false_ne_true
    · rw [if_neg hunix]
      exact ⟨hgains.release_next hn, apart_none ∅⟩
  · rw [hget]
    exact ⟨fun h => absurd h hneither.2, fun _ => ⟨hgains, apart_none ∅⟩⟩
  · rw [hget]
    exact ⟨fun _ => hsound, fun h => absurd hstale.2 h⟩

/-- The pointer to the address of the peer is overwritten. -/
def Overwrites (e : Authority) (display : ℤ) : Prop :=
  e.peer.Found ∧ e.Authorizes display e.peer.address

/-- Memory that has been moved is freed under its old address. -/
def FreesTwice (e : Authority) (display : ℤ) : Prop :=
  e.peer.Stale ∨ (¬ e.peer.Found ∨ e.Overwrites display) ∧ e.sock.Stale

/-- **What is allocated and not freed**: the result, and the address of the peer where the pointer
to it has been overwritten. What is freed twice is all that can go wrong beyond that. -/
theorem getAuthInfo_cases (e : Authority) (display : ℤ) (l : Ledger Resource) :
    (e.FreesTwice display → (e.getAuthInfo display l).2.sound = false) ∧
      (¬ e.FreesTwice display → ∃ lost : Finset Name,
        l.Gains (e.getAuthInfo display l).2
          (ownBlocks (e.getAuthInfo display l).1 ∪ lost) ∧
        Apart (e.getAuthInfo display l).1 lost ∧
        (e.Overwrites display → ∃ n, lost = {(.memory, n)}) ∧
          (¬ e.Overwrites display → lost = ∅)) := by
  unfold getAuthInfo
  rcases getPeerSockName_cases (.refl l) e.peer with
    ⟨hfound, n, u, hget, hn, hgains⟩ | ⟨hneither, u, hget, hgains⟩ | ⟨hstale, u, hget, hsound⟩
  · rw [hget]
    dsimp only
    obtain ⟨result, l', hfind, htwice, hlost, hkept⟩ :=
      findAuth_cases hgains hn e display e.peer.address false
    rw [hfind]
    have hiff : e.FreesTwice display ↔ e.Overwrites display ∧ e.sock.Stale :=
      ⟨fun h => (h.resolve_left hfound.not_stale).imp_left fun h => h.resolve_left
        (not_not.mpr hfound), fun h => .inr (h.imp_left .inr)⟩
    rw [hiff]
    refine ⟨fun h => htwice ⟨⟨h.1.2, rfl⟩, h.2⟩, fun h => ?_⟩
    by_cases hover : e.Overwrites display
    · obtain ⟨hall, hapart⟩ := hlost ⟨hover.2, rfl⟩ fun hstale => h ⟨hover, hstale⟩
      exact ⟨insert (.memory, n) ∅, hall, hapart, fun _ => ⟨n, rfl⟩, fun h => absurd hover h⟩
    · obtain ⟨hall, hapart⟩ := hkept fun h => hover ⟨hfound, h.1⟩
      exact ⟨∅, hall, hapart, fun h => absurd h hover, fun _ => rfl⟩
  · rw [hget]
    obtain ⟨htwice, hkept⟩ := e.getLocalAuth_cases display u
    have hiff : e.FreesTwice display ↔ e.sock.Stale :=
      ⟨fun h => (h.resolve_left hneither.2).2, fun h => .inr ⟨.inl hneither.1, h⟩⟩
    rw [hiff]
    refine ⟨htwice, fun h => ⟨∅, ?_, (hkept h).2, fun hover => absurd hover.1 hneither.1,
      fun _ => rfl⟩⟩
    exact (hgains.trans (hkept h).1).congr (Finset.empty_union _)
  · rw [hget]
    refine ⟨fun _ => ?_, fun h => absurd (.inl hstale.2) h⟩
    obtain ⟨htwice, hkept⟩ := e.getLocalAuth_cases display u
    by_cases hsock : e.sock.Stale
    · exact htwice hsock
    · exact (hkept hsock).1.sound.trans hsound

end Authority

end gains

end Xcb
