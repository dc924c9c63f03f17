import TcpIp.Gai.Getaddrinfo

/-!
# `getaddrinfo` of `libfree`

The older implementation of `getaddrinfo` is one long function with a common exit: the
label `bad`, where `freeaddrinfo(aihead)` is called and the error returned.  `aihead` is
assigned in the middle of the function, and there are ways to the label from above.  A
Unix domain path is treated apart, by a function with returns of its own.

Of an allocation the model keeps its number; the structures `addrinfo` that a call has
allocated are recorded, so that they can be compared with those it frees.

## Main definitions

* `getaddrinfo` — and, under the source's names, the functions it is made of.
* `Outcome` — what a call returns, stores, frees and has allocated.
* `Sound` — what a caller expects of that.
* `Handled` — when it is so.

## Main results

* `grows_getaddrinfoServ` — a structure that is allocated is in the list.
* `sound_iff_handled` — `Sound`, in terms of the arguments and of what the system answers.
-/

namespace TcpIp.Free

open Gai

/-! ### The system -/

/-- The answer of the resolver: addresses of one family; `h_name` may be `NULL`. -/
structure Hostent where
  name : Option CString
  addrs : List (BitVec 32) ⊕ List (BitVec 128)

namespace Hostent

/-- `h_addrtype`. -/
def addrtype (h : Hostent) : ℤ :=
  match h.addrs with
  | .inl _ => afInet
  | .inr _ => afInet6

/-- `h_addr_list`. -/
def addrList (h : Hostent) : List Addr :=
  match h.addrs with
  | .inl as => as.map .in4
  | .inr as => as.map .in6

end Hostent

/-- What the library gets from the system. -/
structure Env where
  /-- The machine keeps numbers in network byte order. -/
  bigEndian : Bool
  /-- Whether the `n`-th allocation of a call succeeds. -/
  alloc : ℕ → Bool
  inetPton4 : CString → Option (BitVec 32)
  inetPton6 : CString → Option (BitVec 128)
  /-- `gethostbyname`, with `RES_USE_INET6` set by the call or not. -/
  gethostbyname : Bool → CString → Except HErrno Hostent
  /-- `s_port`, in network byte order. -/
  getservbyname : CString → Proto → Option UInt16

def Env.htons (env : Env) (x : UInt16) : UInt16 := if env.bigEndian then x else swapBytes x

/-- The allocations of a call. -/
structure Mem where
  /-- How many have been tried. -/
  count : ℕ
  /-- Those that gave a structure `addrinfo`. -/
  entries : List ℕ

namespace Mem

/-- `malloc`, `calloc` and `strdup`, for anything else. -/
def malloc (env : Env) (m : Mem) : Bool × Mem :=
  (env.alloc m.count, { m with count := m.count + 1 })

/-- `calloc(1, sizeof(struct addrinfo))`. -/
def calloc (env : Env) (m : Mem) : Option ℕ × Mem :=
  if env.alloc m.count then (some m.count, ⟨m.count + 1, m.entries ++ [m.count]⟩)
  else (none, { m with count := m.count + 1 })

end Mem

/-- A structure `addrinfo`; the list takes the place of `ai_next`. -/
structure Entry where
  /-- The allocation it came from. -/
  place : ℕ
  flags : BitVec 32
  family : ℤ
  socktype : ℤ
  protocol : ℤ
  canonname : Option CString
  /-- `none` is `NULL`. -/
  addr : Option Sockaddr
  deriving DecidableEq, Repr

/-- `freeaddrinfo`: the structures it frees. -/
def freeaddrinfo (aihead : List Entry) : List ℕ := aihead.map Entry.place

/-! ### The arguments -/

/-- The string is an absolute path. -/
def isPath : Option CString → Bool
  | some ('/' :: _) => true
  | _ => false

/-- The check of the family, and of the socket type for it. -/
def checkFamily (hints : Hints) : Option Eai :=
  if hints.family = afUnspec then none
  else
    match socktypesOf hints.family with
    | none => some .family
    | some types =>
      if hints.socktype ≠ 0 ∧ hints.socktype ∉ types then some .socktype else none

/-- The family of a host that is an address, when none was asked for. -/
def literalFamily (env : Env) (host : CString) (family : ℤ) : ℤ :=
  if family = afUnspec then
    if (env.inetPton6 host).isSome then afInet6
    else if (env.inetPton4 host).isSome then afInet
    else family
  else family

/-- The checks in front of the lookup: `host` and `hints` as they are used from there on. -/
def arguments (env : Env) (host serv : Option CString) (hints : Hints) :
    Except Eai (Option CString × Hints) :=
  if hasFlag hints.flags (~~~(aiPassive ||| aiCanonname)) then .error .badflags
  else
    match checkFamily hints with
    | some e => .error e
    | none =>
      if !given host then
        if !given serv then .error .noname
        else if hasFlag hints.flags aiPassive then
          if hints.family = afInet then .ok (some ['0', '.', '0', '.', '0', '.', '0'], hints)
          else if hints.family = afInet6 then .ok (some ['0', ':', ':', '0'], hints)
          else if hints.family = afLocal then
            if isPath serv then .ok (host, hints) else .error .addrfamily
          else if hints.family = afUnspec then .error .addrfamily
          else .ok (host, hints)
        else .ok (some ['l', 'o', 'c', 'a', 'l', 'h', 'o', 's', 't'], hints)
      else .ok (host, { hints with family := literalFamily env (host.getD []) hints.family })

/-! ### The host -/

/-- `HENTBUFSIZ`. -/
def hentbufsiz : ℕ := 8 * 1024

/-- The check for an IPv4 dotted-decimal string. -/
def literal4 (env : Env) (host : CString) : Option (BitVec 32) :=
  if startsWithDigit host then env.inetPton4 host else none

/-- The check for an IPv6 hex string. -/
def literal6 (env : Env) (host : CString) : Option (BitVec 128) :=
  match host with
  | [] => none
  | c :: _ => if isXDigit c || c == ':' then env.inetPton6 host else none

/-- `getaddrinfo_host`. -/
def getaddrinfoHost (env : Env) (host : CString) (family : ℤ) : Except Eai Hostent :=
  let name := some (host.take (hentbufsiz - 1))
  match literal4 env host with
  | some a => .ok ⟨name, .inl [a]⟩
  | none =>
    match literal6 env host with
    | some a => .ok ⟨name, .inr [a]⟩
    | none =>
      match env.gethostbyname (family == afInet6) host with
      | .ok h => .ok h
      | .error e => .error e.eai

/-- The loop over `h_addr_list`: the list from here on, and whether there was memory. -/
def hostLoop (env : Env) (hints : Hints) : List Addr → Mem → List Entry × Bool × Mem
  | [], m => ([], true, m)
  | a :: as, m =>
    match m.calloc env with
    | (none, m) => ([], false, m)
    | (some p, m) =>
      let ai : Entry := {
        place := p
        flags := if hints.socktype = 0 then aiClone else 0
        family := a.family
        socktype := hints.socktype
        protocol := hints.protocol
        canonname := none
        addr := none }
      match m.malloc env with
      | (false, m) => ([ai], false, m)
      | (true, m) =>
        match hostLoop env hints as m with
        | (next, ok, m) => ({ ai with addr := some (a.sockaddr 0) } :: next, ok, m)

/-- The canonical name is stored in the first entry.  There is no result if there is no
entry: `aihead` is followed without a test. -/
def setCanonname (env : Env) (hints : Hints) (name : CString) (aihead : List Entry) (m : Mem) :
    Option (List Entry × Bool × Mem) :=
  if hasFlag hints.flags aiCanonname then
    match aihead with
    | [] => none
    | ai :: next =>
      match m.malloc env with
      | (true, m) => some ({ ai with canonname := some name } :: next, true, m)
      | (false, m) => some ({ ai with canonname := none } :: next, false, m)
  else some (aihead, true, m)

/-! ### The service -/

/-- `getaddrinfo_clone`: the structure linked behind `ai`, if there is one, and whether it is
complete. -/
def getaddrinfoClone (env : Env) (ai : Entry) (m : Mem) : Option Entry × Bool × Mem :=
  match m.calloc env with
  | (none, m) => (none, false, m)
  | (some p, m) =>
    -- the new structure is linked in before its address is allocated
    let new := { ai with place := p, flags := 0, canonname := none, addr := none }
    match m.malloc env with
    | (false, m) => (some new, false, m)
    | (true, m) => (some { new with addr := ai.addr }, true, m)

/-- The socket type and the port filled in by `getaddrinfo_port`. -/
def Entry.setPort (ai : Entry) (port : UInt16) (socktype : ℤ) : Entry :=
  { ai with socktype, addr := ai.addr.map fun a => a.addr.sockaddr port }

/-- What an entry adds to `nfound`. -/
def Entry.nfound (ai : Entry) : ℕ := if ai.family = afInet ∨ ai.family = afInet6 then 1 else 0

/-- `getaddrinfo_port`: the list from here on, and `nfound`, which is `none` for `-1`. -/
def getaddrinfoPort (env : Env) (port : UInt16) (socktype : ℤ) :
    List Entry → Mem → List Entry × Option ℕ × Mem
  | [], m => ([], some 0, m)
  | ai :: next, m =>
    if hasFlag ai.flags aiClone then
      if ai.socktype ≠ 0 then
        match getaddrinfoClone env ai m with
        | (new, false, m) => (ai :: (new.toList ++ next), none, m)
        | (new, true, m) =>
          match getaddrinfoPort env port socktype next m with
          | (next, rc, m) =>
            (ai :: (new.toList.map (·.setPort port socktype) ++ next), rc.map (· + ai.nfound), m)
      else
        match getaddrinfoPort env port socktype next m with
        | (next, rc, m) => (ai.setPort port socktype :: next, rc.map (· + ai.nfound), m)
    else if ai.socktype ≠ socktype then
      match getaddrinfoPort env port socktype next m with
      | (next, rc, m) => (ai :: next, rc, m)
    else
      match getaddrinfoPort env port socktype next m with
      | (next, rc, m) => (ai.setPort port socktype :: next, rc.map (· + ai.nfound), m)

/-- The part of `getaddrinfo_serv` for one protocol. -/
def servname (env : Env) (hints : Hints) (serv : CString) (proto : Proto) (socktype : ℤ)
    (aihead : List Entry) (m : Mem) : List Entry × Option ℕ × Mem :=
  if hints.socktype = 0 ∨ hints.socktype = socktype then
    match env.getservbyname serv proto with
    | some port => getaddrinfoPort env port socktype aihead m
    | none => (aihead, some 0, m)
  else (aihead, some 0, m)

/-- `getaddrinfo_serv`: the list, and the error if there is one. -/
def getaddrinfoServ (env : Env) (hints : Hints) (serv : CString) (aihead : List Entry) (m : Mem) :
    List Entry × Option Eai × Mem :=
  if startsWithDigit serv ∧ hints.socktype ≠ 0 then
    match getaddrinfoPort env (env.htons (.ofNat (atoi serv))) hints.socktype aihead m with
    | (aihead, none, m) => (aihead, some .memory, m)
    | (aihead, some rc, m) => (aihead, if rc = 0 then some .noname else none, m)
  else
    match servname env hints serv .tcp sockStream aihead m with
    | (aihead, none, m) => (aihead, some .memory, m)
    | (aihead, some n₁, m) =>
      match servname env hints serv .udp sockDgram aihead m with
      | (aihead, none, m) => (aihead, some .memory, m)
      | (aihead, some n₂, m) =>
        (aihead, if n₁ + n₂ = 0 then some (if hints.socktype = 0 then .noname else .service)
          else none, m)

/-! ### The call -/

/-- What a call has done when it returns. -/
structure Outcome where
  /-- The value it returns. -/
  ret : ℕ
  /-- What it has stored in `*result`. -/
  result : Option (List Entry)
  /-- The structures `freeaddrinfo` has freed; `none` if it was given a pointer that had
  not been assigned. -/
  freed : Option (List ℕ)
  /-- The structures the call has allocated. -/
  entries : List ℕ
  deriving DecidableEq, Repr

/-- The label `bad`; `aihead` is `none` as long as it has not been assigned. -/
def bad (e : Eai) (aihead : Option (List Entry)) (m : Mem) : Outcome :=
  ⟨e.code, none, aihead.map freeaddrinfo, m.entries⟩

/-- `*result = aihead; return(0)`. -/
def done (aihead : List Entry) (m : Mem) : Outcome := ⟨0, some aihead, some [], m.entries⟩

/-- `addrinfo_local`.  The `unlink` of a path that is to be bound is left out. -/
def addrinfoLocal (env : Env) (path : CString) (hints : Hints) (m : Mem) : Outcome :=
  if hints.socktype = 0 then ⟨Eai.socktype.code, none, some [], m.entries⟩
  else
    match m.calloc env with
    -- `return(NULL)`
    | (none, m) => ⟨0, none, some [], m.entries⟩
    | (some p, m) =>
      match m.malloc env with
      | (false, m) => ⟨Eai.memory.code, none, some [], m.entries⟩
      | (true, m) =>
        let ai : Entry := {
          place := p
          flags := 0
          family := afLocal
          socktype := hints.socktype
          protocol := 0
          canonname := none
          addr := some (.un (path.take sunPathSize)) }
        done [ai] m

/-- The end of `getaddrinfo`: the service, if one is given. -/
def finish (env : Env) (serv : Option CString) (hints : Hints) (aihead : List Entry) (m : Mem) :
    Outcome :=
  if given serv then
    match getaddrinfoServ env hints (serv.getD []) aihead m with
    | (aihead, some e, m) => bad e (some aihead) m
    | (aihead, none, m) => done aihead m
  else done aihead m

/-- The part of `getaddrinfo` behind `aihead = NULL`. -/
def build (env : Env) (host : CString) (serv : Option CString) (hints : Hints) (h : Hostent)
    (m : Mem) : Option Outcome :=
  match hostLoop env hints h.addrList m with
  | (aihead, false, m) => some (bad .memory (some aihead) m)
  | (aihead, true, m) =>
    match setCanonname env hints (h.name.getD host) aihead m with
    | none => none
    | some (aihead, false, m) => some (bad .memory (some aihead) m)
    | some (aihead, true, m) => some (finish env serv hints aihead m)

/-- The path of a Unix domain socket, given in the place of the host or of the service. -/
def localPath (host serv : Option CString) : Option CString :=
  if isPath host then host else if isPath serv then serv else none

/-- `getaddrinfo`.  There is no result if it follows a pointer that is `NULL`. -/
def getaddrinfo (env : Env) (host serv : Option CString) (hintsptr : Option Hints) :
    Option Outcome :=
  let m : Mem := ⟨0, []⟩
  match arguments env host serv (hintsptr.getD {}) with
  | .error e => some (bad e none m)
  | .ok (host, hints) =>
    match localPath host serv with
    | some path => some (addrinfoLocal env path hints m)
    | none =>
      match host with
      | none => none
      | some host =>
        match getaddrinfoHost env host hints.family with
        | .error e => some (bad e none m)
        | .ok h =>
          if hints.family ≠ afUnspec ∧ hints.family ≠ h.addrtype then
            some (bad .addrfamily none m)
          else build env host serv hints h m

/-! ### What is expected, and when it is so -/

/-- A call that fails returns an error, leaves `*result` alone and has freed exactly the
structures it has allocated; one that returns `0` has stored a list that is not empty. -/
inductive Sound : Option Outcome → Prop
  | done {o : Outcome} {aihead : List Entry} (hret : o.ret = 0) (hresult : o.result = some aihead)
    (hne : aihead ≠ []) : Sound (some o)
  | failed {o : Outcome} {e : Eai} {ps : List ℕ} (hret : o.ret = e.code)
    (hresult : o.result = none) (hfreed : o.freed = some ps) (hperm : ps.Perm o.entries) :
    Sound (some o)

/-- The arguments meet the checks. -/
structure Passes (host serv : Option CString) (hints : Hints) : Prop where
  flags : hasFlag hints.flags (~~~(aiPassive ||| aiCanonname)) = false
  family : hints.family = afUnspec ∨ ∃ types, socktypesOf hints.family = some types ∧
    (hints.socktype = 0 ∨ hints.socktype ∈ types)
  name : given host = true ∨ given serv = true ∧ (hasFlag hints.flags aiPassive = true →
    hints.family = afInet ∨ hints.family = afInet6 ∨ hints.family = afLocal ∧ isPath serv = true)

/-- The host that is looked up. -/
def target (host : Option CString) (hints : Hints) : Option CString :=
  if given host then host
  else if hasFlag hints.flags aiPassive then
    if hints.family = afInet then some ['0', '.', '0', '.', '0', '.', '0']
    else if hints.family = afInet6 then some ['0', ':', ':', '0']
    else host
  else some ['l', 'o', 'c', 'a', 'l', 'h', 'o', 's', 't']

/-- The family it is looked up in. -/
def familyFor (env : Env) (host : Option CString) (hints : Hints) : ℤ :=
  if given host then literalFamily env (host.getD []) hints.family else hints.family

/-- The lookup of a host in a family finds addresses of that family, at least one unless
there is no name to be stored and a service to be looked up. -/
def Found (env : Env) (name : CString) (family : ℤ) (hints : Hints) (serv : Option CString) :
    Prop :=
  ∃ h, getaddrinfoHost env name family = .ok h ∧ (family = afUnspec ∨ family = h.addrtype) ∧
    (h.addrList ≠ [] ∨ hasFlag hints.flags aiCanonname = false ∧ given serv = true)

/-- The arguments meet the checks, and either they name a path, for which a socket type is
missing or there is memory, or the host is found. -/
structure Handled (env : Env) (host serv : Option CString) (hints : Hints) : Prop where
  passes : Passes host serv hints
  path : ∀ path, localPath (target host hints) serv = some path →
    hints.socktype = 0 ∨ env.alloc 0 = true ∧ env.alloc 1 = true
  found : ∀ name, localPath (target host hints) serv = none → target host hints = some name →
    Found env name (familyFor env host hints) hints serv

/-! ### The checks -/

section Arguments

variable {env : Env} {host serv : Option CString} {hints : Hints}

theorem checkFamily_eq_none_iff : checkFamily hints = none ↔ hints.family = afUnspec ∨
    ∃ types, socktypesOf hints.family = some types ∧
      (hints.socktype = 0 ∨ hints.socktype ∈ types) := by
  unfold checkFamily
  split
  · next h => exact iff_of_true rfl (.inl h)
  · next h =>
    split
    · next hnone =>
      refine iff_of_false (by intro h; cases h) ?_
      rintro (hunspec | ⟨types, hsome, -⟩)
      · exact h hunspec
      · rw [hnone] at hsome
        cases hsome
    · next types hsome =>
      have hvalid : (hints.socktype = 0 ∨ hints.socktype ∈ types) ↔
          ¬(hints.socktype ≠ 0 ∧ hints.socktype ∉ types) := by
        rw [not_and_or, not_not, not_not]
      rw [ite_eq_right_iff, hsome, or_iff_right h]
      constructor
      · intro hcheck
        exact ⟨types, rfl, hvalid.mpr fun hbad => by cases hcheck hbad⟩
      · rintro ⟨_, heq, hok⟩ hbad
        cases heq
        exact absurd hbad (hvalid.mp hok)

theorem family_of_passes (h : hints.family = afUnspec ∨ ∃ types,
    socktypesOf hints.family = some types ∧ (hints.socktype = 0 ∨ hints.socktype ∈ types))
    (h4 : hints.family ≠ afInet) (h6 : hints.family ≠ afInet6) (hl : hints.family ≠ afLocal) :
    hints.family = afUnspec := by
  obtain hunspec | ⟨types, hsome, -⟩ := h
  · exact hunspec
  · rw [socktypesOf, if_neg h4, if_neg h6, if_neg hl] at hsome
    cases hsome

/-- **The checks** let pass what they should. -/
theorem arguments_of_passes (env : Env) (h : Passes host serv hints) :
    arguments env host serv hints
      = .ok (target host hints, { hints with family := familyFor env host hints }) := by
  have hfamily := checkFamily_eq_none_iff.mpr h.family
  unfold arguments
  rw [h.flags, if_neg Bool.false_ne_true, hfamily]
  dsimp only
  cases hhost : given host with
  | true => simp [target, familyFor, hhost]
  | false =>
    have hself : { hints with family := familyFor env host hints } = hints := by
      rw [familyFor, hhost, if_neg Bool.false_ne_true]
    rw [hself]
    obtain hgiven | ⟨hserv, hpassive⟩ := h.name
    · rw [hhost] at hgiven
      cases hgiven
    · cases hflag : hasFlag hints.flags aiPassive with
      | false => simp [target, hhost, hserv, hflag]
      | true =>
        rcases hpassive hflag with h4 | h6 | ⟨hl, hpath⟩
        · simp [target, hhost, hserv, hflag, h4]
        · simp [target, hhost, hserv, hflag, h6, afInet, afInet6]
        · simp [target, hhost, hserv, hflag, hl, hpath, afInet, afInet6, afLocal]

/-- **The checks** stop everything else. -/
theorem arguments_of_not_passes (env : Env) (h : ¬Passes host serv hints) :
    ∃ e, arguments env host serv hints = .error e := by
  unfold arguments
  split
  · exact ⟨_, rfl⟩
  · next hflags =>
    split
    · exact ⟨_, rfl⟩
    · next hnone =>
      have hfamily := checkFamily_eq_none_iff.mp hnone
      have hname : ¬(given host = true ∨ given serv = true ∧
          (hasFlag hints.flags aiPassive = true → hints.family = afInet ∨ hints.family = afInet6 ∨
            hints.family = afLocal ∧ isPath serv = true)) :=
        fun hname => h ⟨Bool.eq_false_iff.mpr hflags, hfamily, hname⟩
      rw [not_or, not_and, Classical.not_imp, not_or, not_or, not_and] at hname
      obtain ⟨hhost, hserv⟩ := hname
      rw [Bool.not_eq_true] at hhost
      rw [hhost, Bool.not_false, if_pos rfl]
      cases hgiven : given serv with
      | false => exact ⟨_, rfl⟩
      | true =>
        obtain ⟨hpassive, h4, h6, hlocal⟩ := hserv hgiven
        rw [Bool.not_true, if_neg Bool.false_ne_true, hpassive, if_pos rfl, if_neg h4, if_neg h6]
        split
        · next hl =>
          rw [if_neg (hlocal hl)]
          exact ⟨_, rfl⟩
        · next hl =>
          rw [if_pos (family_of_passes hfamily h4 h6 hl)]
          exact ⟨_, rfl⟩

end Arguments

/-! ### Allocated structures are in the list -/

section Grows

variable {env : Env} {hints : Hints} {m m' m'' : Mem} {ais ais' ais'' : List Entry}

/-- On the way from one list to another the structures that have been allocated were put in,
and none was taken out. -/
def Grows (ais : List Entry) (m : Mem) (ais' : List Entry) (m' : Mem) : Prop :=
  ∃ new, m'.entries = m.entries ++ new ∧ (freeaddrinfo ais').Perm (freeaddrinfo ais ++ new)

theorem Grows.of_eq (hlist : freeaddrinfo ais' = freeaddrinfo ais)
    (hentries : m'.entries = m.entries) : Grows ais m ais' m' := by
  refine ⟨[], ?_, ?_⟩
  · rw [hentries, List.append_nil]
  · rw [hlist, List.append_nil]

theorem Grows.refl (ais : List Entry) (m : Mem) : Grows ais m ais m := .of_eq rfl rfl

theorem Grows.trans (h : Grows ais m ais' m') (h' : Grows ais' m' ais'' m'') :
    Grows ais m ais'' m'' := by
  obtain ⟨new, hentries, hperm⟩ := h
  obtain ⟨new', hentries', hperm'⟩ := h'
  refine ⟨new ++ new', ?_, ?_⟩
  · rw [hentries', hentries, List.append_assoc]
  · rw [← List.append_assoc]
    exact hperm'.trans (hperm.append_right new')

/-- The rest of a list grows behind an entry. -/
theorem Grows.cons {ai ai' : Entry} (h : Grows ais m ais' m') (hplace : ai'.place = ai.place) :
    Grows (ai :: ais) m (ai' :: ais') m' := by
  obtain ⟨new, hentries, hperm⟩ := h
  refine ⟨new, hentries, ?_⟩
  show (ai'.place :: freeaddrinfo ais').Perm (ai.place :: (freeaddrinfo ais ++ new))
  rw [hplace]
  exact hperm.cons ai.place

theorem Grows.ne_nil (h : Grows ais m ais' m') (hne : ais ≠ []) : ais' ≠ [] := by
  obtain ⟨new, -, hperm⟩ := h
  rintro rfl
  obtain ⟨hnil, -⟩ := List.append_eq_nil_iff.mp hperm.nil_eq.symm
  exact hne (List.map_eq_nil_iff.mp hnil)

/-- The list holds what has been allocated. -/
def Owns (ais : List Entry) (m : Mem) : Prop := (freeaddrinfo ais).Perm m.entries

theorem Owns.grows (h : Owns ais m) (hg : Grows ais m ais' m') : Owns ais' m' := by
  obtain ⟨new, hentries, hperm⟩ := hg
  unfold Owns
  rw [hentries]
  exact hperm.trans (List.Perm.append_right new h)

/-- A structure is allocated and put into the list. -/
theorem calloc_cases (env : Env) (m : Mem) :
    (∃ m', m.calloc env = (none, m') ∧ m'.entries = m.entries) ∨
      ∃ p m', m.calloc env = (some p, m') ∧ m'.entries = m.entries ++ [p] := by
  unfold Mem.calloc
  split
  · exact .inr ⟨_, _, rfl, rfl⟩
  · exact .inl ⟨_, rfl, rfl⟩

theorem malloc_cases (env : Env) (m : Mem) :
    ∃ ok m', m.malloc env = (ok, m') ∧ m'.entries = m.entries := ⟨_, _, rfl, rfl⟩

/-- The new structure is behind its original. -/
theorem grows_getaddrinfoClone {ai : Entry} {next : List Entry} {new : Option Entry} {ok : Bool}
    (h : getaddrinfoClone env ai m = (new, ok, m')) :
    Grows (ai :: next) m (ai :: (new.toList ++ next)) m' := by
  unfold getaddrinfoClone at h
  obtain ⟨m₁, hcalloc, hentries⟩ | ⟨p, m₁, hcalloc, hentries⟩ := calloc_cases env m
  · rw [hcalloc] at h
    cases h
    exact .of_eq rfl hentries
  · obtain ⟨ok₂, m₂, hmalloc, hentries₂⟩ := malloc_cases env m₁
    simp only [hcalloc, hmalloc] at h
    -- whether the address could be allocated or not, the structure is linked in
    have hnew : ∃ ai', new = some ai' ∧ ai'.place = p ∧ m' = m₂ := by
      cases ok₂ with
      | false =>
        cases h
        exact ⟨_, rfl, rfl, rfl⟩
      | true =>
        cases h
        exact ⟨_, rfl, rfl, rfl⟩
    obtain ⟨ai', rfl, rfl, rfl⟩ := hnew
    refine ⟨[ai'.place], hentries₂.trans hentries, ?_⟩
    show (ai.place :: ai'.place :: freeaddrinfo next).Perm
      (ai.place :: (freeaddrinfo next ++ [ai'.place]))
    exact (List.perm_append_singleton ai'.place (freeaddrinfo next)).symm.cons ai.place

/-- A pass keeps the entries, and has its clones in the list. -/
theorem grows_getaddrinfoPort (port : UInt16) (socktype : ℤ) : ∀ (ais : List Entry) (m : Mem),
    Grows ais m (getaddrinfoPort env port socktype ais m).1
      (getaddrinfoPort env port socktype ais m).2.2 := by
  intro ais
  induction ais with
  | nil => intro m; exact .refl [] m
  | cons ai next ih =>
    intro m
    unfold getaddrinfoPort
    split
    · split
      · split
        · next hclone => exact grows_getaddrinfoClone hclone
        · next new m₁ hclone =>
          refine (@grows_getaddrinfoClone env m m₁ ai next new true hclone).trans ?_
          refine Grows.cons ?_ rfl
          cases new with
          | none => exact ih m₁
          | some new => exact (ih m₁).cons rfl
      · exact (ih m).cons rfl
    · split
      · exact (ih m).cons rfl
      · exact (ih m).cons rfl

theorem grows_servname (serv : CString) (proto : Proto) (socktype : ℤ) (ais : List Entry)
    (m : Mem) : Grows ais m (servname env hints serv proto socktype ais m).1
      (servname env hints serv proto socktype ais m).2.2 := by
  unfold servname
  split
  · split
    · exact grows_getaddrinfoPort _ _ ais m
    · exact .refl ais m
  · exact .refl ais m

/-- **The service** is filled in without losing an entry, also if that fails. -/
theorem grows_getaddrinfoServ (serv : CString) (ais : List Entry) (m : Mem) :
    Grows ais m (getaddrinfoServ env hints serv ais m).1
      (getaddrinfoServ env hints serv ais m).2.2 := by
  unfold getaddrinfoServ
  split
  · have hport := @grows_getaddrinfoPort env (env.htons (.ofNat (atoi serv))) hints.socktype ais m
    split
    · next heq => rw [heq] at hport; exact hport
    · next heq => rw [heq] at hport; exact hport
  · have htcp := @grows_servname env hints serv .tcp sockStream ais m
    split
    · next heq => rw [heq] at htcp; exact htcp
    · next ais₁ n₁ m₁ heq =>
      rw [heq] at htcp
      have hudp := @grows_servname env hints serv .udp sockDgram ais₁ m₁
      split
      · next heq => rw [heq] at hudp; exact htcp.trans hudp
      · next heq => rw [heq] at hudp; exact htcp.trans hudp

/-- Without entries there is nothing to fill in. -/
theorem getaddrinfoServ_nil (serv : CString) (m : Mem) :
    ∃ ais e m', getaddrinfoServ env hints serv [] m = (ais, some e, m') := by
  have hname : ∀ proto socktype, servname env hints serv proto socktype [] m = ([], some 0, m) := by
    intro proto socktype
    unfold servname
    split
    · split <;> rfl
    · rfl
  unfold getaddrinfoServ
  split
  · exact ⟨_, _, _, rfl⟩
  · simp only [hname]
    exact ⟨_, _, _, rfl⟩

/-- The loop over the addresses, with an entry for each of them if there is memory. -/
theorem hostLoop_entries (env : Env) (hints : Hints) : ∀ (as : List Addr) (m : Mem),
    (hostLoop env hints as m).2.2.entries
        = m.entries ++ freeaddrinfo (hostLoop env hints as m).1 ∧
      ((hostLoop env hints as m).2.1 = true →
        ((hostLoop env hints as m).1 = [] ↔ as = [])) := by
  intro as
  induction as with
  | nil =>
    intro m
    exact ⟨(List.append_nil m.entries).symm, fun _ => iff_of_true rfl rfl⟩
  | cons a as ih =>
    intro m
    unfold hostLoop
    obtain ⟨m₁, hcalloc, hentries⟩ | ⟨p, m₁, hcalloc, hentries⟩ := calloc_cases env m
    · rw [hcalloc]
      refine ⟨?_, fun hok => by cases hok⟩
      show m₁.entries = m.entries ++ []
      rw [hentries, List.append_nil]
    · rw [hcalloc]
      obtain ⟨ok, m₂, hmalloc, hentries₂⟩ := malloc_cases env m₁
      simp only [hmalloc]
      cases ok with
      | false => exact ⟨hentries₂.trans hentries, fun hok => by cases hok⟩
      | true =>
        refine ⟨?_, fun _ => iff_of_false (List.cons_ne_nil _ _) (List.cons_ne_nil _ _)⟩
        show (hostLoop env hints as m₂).2.2.entries
          = m.entries ++ p :: freeaddrinfo (hostLoop env hints as m₂).1
        rw [(ih m₂).1, hentries₂, hentries, List.append_assoc]
        rfl

end Grows

/-! ### The exits -/

section Exits

variable {env : Env} {hints : Hints} {m m' : Mem} {ais : List Entry}

theorem sound_bad (e : Eai) (h : Owns ais m) : Sound (some (bad e (some ais) m)) :=
  .failed rfl rfl rfl h

theorem sound_done (hne : ais ≠ []) : Sound (some (done ais m)) := .done rfl rfl hne

/-- An exit in front of the assignment. -/
theorem not_sound_unassigned (e : Eai) (m : Mem) : ¬Sound (some (bad e none m)) := by
  intro h
  cases h with
  | done hret => exact e.code_ne_zero hret
  | failed _ _ hfreed => cases hfreed

theorem not_sound_nil (m : Mem) : ¬Sound (some (done [] m)) := by
  intro h
  cases h with
  | done _ hresult hne =>
    cases hresult
    exact hne rfl
  | failed hret => exact Eai.code_ne_zero _ hret.symm

/-- **A Unix domain path.** -/
theorem sound_addrinfoLocal_iff (path : CString) :
    Sound (some (addrinfoLocal env path hints ⟨0, []⟩)) ↔
      hints.socktype = 0 ∨ env.alloc 0 = true ∧ env.alloc 1 = true := by
  unfold addrinfoLocal
  split
  · next hzero => exact iff_of_true (.failed (e := .socktype) rfl rfl rfl (.refl [])) (.inl hzero)
  · next hne =>
    rw [or_iff_right hne]
    cases h0 : env.alloc 0 with
    | false =>
      simp only [Mem.calloc, h0, Bool.false_eq_true, if_false, false_and, iff_false]
      -- `0` is returned, but nothing has been stored
      intro h
      cases h with
      | done _ hresult => cases hresult
      | failed hret => exact Eai.code_ne_zero _ hret.symm
    | true =>
      cases h1 : env.alloc 1 with
      | false =>
        simp only [Mem.calloc, Mem.malloc, h0, if_true, Nat.zero_add, h1, Bool.false_eq_true,
          and_false, iff_false]
        -- the structure is not freed
        intro h
        cases h with
        | done hret => cases hret
        | failed _ _ hfreed hperm =>
          cases hfreed
          cases hperm.length_eq
      | true =>
        simp only [Mem.calloc, Mem.malloc, h0, if_true, Nat.zero_add, h1, and_self, iff_true]
        exact sound_done (List.cons_ne_nil _ _)

/-- The canonical name is stored in an entry that is there. -/
theorem setCanonname_cases (env : Env) (hints : Hints) (name : CString) (ais : List Entry)
    (m : Mem) : (setCanonname env hints name ais m = none ∧ ais = [] ∧
        hasFlag hints.flags aiCanonname = true) ∨
      ∃ ais' ok m', setCanonname env hints name ais m = some (ais', ok, m') ∧
        Grows ais m ais' m' ∧ (ais = [] → ais' = [] ∧ ok = true ∧
          hasFlag hints.flags aiCanonname = false) := by
  unfold setCanonname
  cases hflag : hasFlag hints.flags aiCanonname with
  | false => exact .inr ⟨ais, true, m, rfl, .refl ais m, fun hnil => ⟨hnil, rfl, rfl⟩⟩
  | true =>
    cases ais with
    | nil => exact .inl ⟨rfl, rfl, rfl⟩
    | cons ai next =>
      refine .inr ?_
      obtain ⟨ok, m', hmalloc, hentries⟩ := malloc_cases env m
      rw [if_pos rfl]
      simp only [hmalloc]
      cases ok with
      | false =>
        refine ⟨_, _, _, rfl, .of_eq rfl hentries, fun hnil => ?_⟩
        cases hnil
      | true =>
        refine ⟨_, _, _, rfl, .of_eq rfl hentries, fun hnil => ?_⟩
        cases hnil

/-- The end of the function, when there are entries. -/
theorem sound_finish (serv : Option CString) (howns : Owns ais m) (hne : ais ≠ []) :
    Sound (some (finish env serv hints ais m)) := by
  unfold finish
  split
  · have hgrows := @grows_getaddrinfoServ env hints (serv.getD []) ais m
    split
    · next heq =>
      rw [heq] at hgrows
      exact sound_bad _ (howns.grows hgrows)
    · next heq =>
      rw [heq] at hgrows
      exact sound_done (hgrows.ne_nil hne)
  · exact sound_done hne

/-- And when there are none: then a service is needed, which is not found. -/
theorem sound_finish_nil_iff (serv : Option CString) (howns : Owns [] m) :
    Sound (some (finish env serv hints [] m)) ↔ given serv = true := by
  unfold finish
  cases hgiven : given serv with
  | true =>
    obtain ⟨ais, e, m', hserv⟩ := @getaddrinfoServ_nil env hints (serv.getD []) m
    have hgrows := @grows_getaddrinfoServ env hints (serv.getD []) [] m
    rw [hserv] at hgrows
    rw [if_pos rfl, hserv]
    exact iff_of_true (sound_bad e (howns.grows hgrows)) rfl
  | false =>
    rw [if_neg Bool.false_ne_true]
    exact iff_of_false (not_sound_nil m) Bool.false_ne_true

/-- **Behind the assignment** the exits are right, unless there is no address. -/
theorem sound_build_iff (host : CString) (serv : Option CString) (h : Hostent) :
    Sound (build env host serv hints h ⟨0, []⟩) ↔
      h.addrList ≠ [] ∨ hasFlag hints.flags aiCanonname = false ∧ given serv = true := by
  unfold build
  obtain ⟨hentries, hnil_iff⟩ := hostLoop_entries env hints h.addrList ⟨0, []⟩
  obtain ⟨ais, ok, m, hloop⟩ : ∃ ais ok m, hostLoop env hints h.addrList ⟨0, []⟩ = (ais, ok, m) :=
    ⟨_, _, _, rfl⟩
  rw [hloop] at hentries hnil_iff ⊢
  have howns : Owns ais m := by
    unfold Owns
    rw [hentries]
    exact .refl _
  cases ok with
  | false =>
    -- an allocation has failed, so there was an address
    refine iff_of_true (sound_bad _ howns) (.inl fun hnil => ?_)
    rw [hnil] at hloop
    cases hloop
  | true =>
    replace hnil_iff : ais = [] ↔ h.addrList = [] := hnil_iff rfl
    obtain ⟨hcanon, rfl, hflag⟩ | ⟨ais', ok, m', hcanon, hgrows, hnil⟩ :=
      setCanonname_cases env hints (h.name.getD host) ais m
    · simp only [hcanon, hflag, hnil_iff.mp rfl, ne_eq, not_true, Bool.true_eq_false, false_and,
        or_self, iff_false]
      intro hsound
      cases hsound
    · have howns' := howns.grows hgrows
      simp only [hcanon]
      rcases eq_or_ne ais [] with rfl | hne
      · obtain ⟨rfl, rfl, hflag⟩ := hnil rfl
        rw [hflag, hnil_iff.mp rfl, or_iff_right (fun h => h rfl), and_iff_right rfl]
        exact sound_finish_nil_iff serv howns'
      · refine iff_of_true ?_ (.inl (hnil_iff.not.mp hne))
        cases ok with
        | false => exact sound_bad _ howns'
        | true => exact sound_finish serv howns' (hgrows.ne_nil hne)

end Exits

/-- What is looked up is a name, if the checks have been passed and no path is given. -/
theorem target_of_passes {host serv : Option CString} {hints : Hints} (h : Passes host serv hints)
    (hpath : localPath (target host hints) serv = none) :
    ∃ name, target host hints = some name := by
  have hserv : isPath serv = false := by
    rw [Bool.eq_false_iff]
    intro hserv
    unfold localPath at hpath
    split at hpath
    · next hhost =>
      rw [hpath] at hhost
      cases hhost
    · rw [hpath] at hserv
      cases hserv
  unfold target
  split
  · next hgiven =>
    cases host with
    | none => cases hgiven
    | some name => exact ⟨name, rfl⟩
  · next hgiven =>
    split
    · next hpassive =>
      obtain hhost | ⟨-, hfamily⟩ := h.name
      · exact absurd hhost hgiven
      · rcases hfamily hpassive with h4 | h6 | ⟨-, hcontra⟩
        · exact ⟨_, if_pos h4⟩
        · rw [if_pos h6]
          split
          · exact ⟨_, rfl⟩
          · exact ⟨_, rfl⟩
        · rw [hserv] at hcontra
          cases hcontra
    · exact ⟨_, rfl⟩

/-- **When the exits are right.**  For all arguments and whatever the system answers: a call
of `getaddrinfo` that fails returns an error, leaves `*result` alone and hands exactly what
it has allocated to `freeaddrinfo`, and one that returns `0` has stored a list that is not
empty, if and only if the call is `Handled`. -/
theorem sound_iff_handled (env : Env) (host serv : Option CString) (hintsptr : Option Hints) :
    Sound (getaddrinfo env host serv hintsptr) ↔ Handled env host serv (hintsptr.getD {}) := by
  generalize hhints : hintsptr.getD {} = hints
  unfold getaddrinfo
  rw [hhints]
  by_cases hpasses : Passes host serv hints
  · rw [arguments_of_passes env hpasses]
    dsimp only
    cases hpath : localPath (target host hints) serv with
    | some path =>
      refine (sound_addrinfoLocal_iff path).trans ⟨fun hok => ⟨hpasses, fun _ _ => hok, ?_⟩,
        fun h => h.path path hpath⟩
      intro name hnone
      rw [hpath] at hnone
      cases hnone
    | none =>
      obtain ⟨name, htarget⟩ := target_of_passes hpasses hpath
      have hhandled : Handled env host serv hints ↔
          Found env name (familyFor env host hints) hints serv := by
        refine ⟨fun h => h.found name hpath htarget, fun h => ⟨hpasses, ?_, ?_⟩⟩
        · intro path hsome
          rw [hpath] at hsome
          cases hsome
        · intro name' _ htarget'
          rw [htarget] at htarget'
          cases htarget'
          exact h
      rw [hhandled, htarget]
      dsimp only [Found]
      cases hlookup : getaddrinfoHost env name (familyFor env host hints) with
      | error e =>
        refine iff_of_false (not_sound_unassigned e _) ?_
        rintro ⟨h, hok, -⟩
        cases hok
      | ok h =>
        dsimp only
        split
        · next hmismatch =>
          refine iff_of_false (not_sound_unassigned _ _) ?_
          rintro ⟨_, hok, hmatch, -⟩
          cases hok
          exact hmatch.elim hmismatch.1 hmismatch.2
        · next hmatch =>
          rw [sound_build_iff]
          have hfamily : familyFor env host hints = afUnspec ∨
              familyFor env host hints = h.addrtype := by
            rw [not_and_or, not_not, not_not] at hmatch
            exact hmatch
          constructor
          · exact fun hrest => ⟨h, rfl, hfamily, hrest⟩
          · rintro ⟨_, hok, -, hrest⟩
            cases hok
            exact hrest
  · obtain ⟨e, herr⟩ := arguments_of_not_passes env hpasses
    rw [herr]
    exact iff_of_false (not_sound_unassigned e _) fun h => hpasses h.passes

/-- A system without a resolver and without memory. -/
def bare : Env where
  bigEndian := false
  alloc _ := false
  inetPton4 _ := none
  inetPton6 _ := none
  gethostbyname _ _ := .error .hostNotFound
  getservbyname _ _ := none

/-- **Wrong exits**: a host that is not found leads to `freeaddrinfo` with a pointer that has
not been assigned; a Unix domain path without memory is reported as a success; and the
structure is not freed if there is no memory for the address of the path. -/
theorem wrong_exits :
    getaddrinfo bare (some ['h']) none none = some ⟨Eai.noname.code, none, none, []⟩ ∧
      getaddrinfo bare (some ['/', 'p']) none (some { socktype := sockStream })
        = some ⟨0, none, some [], []⟩ ∧
      getaddrinfo { bare with alloc := (· == 0) } (some ['/', 'p']) none
          (some { socktype := sockStream })
        = some ⟨Eai.memory.code, none, some [], [0]⟩ := by
  decide

end TcpIp.Free
