import TcpIp.Gai.Basic

/-!
# `getaddrinfo`

`getaddrinfo` checks its arguments (`ga_echeck`), treats Unix domain names apart
(`ga_unix`), sets up one or two searches (`ga_nsearch`), builds an entry for each
address found (`ga_aistruct`) and, if a service is given, has `ga_serv` fill in
the ports, for which `ga_port` goes through the list and clones entries in place.

The list of entries is a Lean list, so that appending through `aipnext` is
appending, and a clone is spliced in behind its original.

## Main definitions

* `getaddrinfo` — and, under the source's names, the functions it is made of.
* `portNode` — what one pass of `ga_port` makes of one entry.

## Main results

* `gaPort_post` — a pass of `ga_port` treats the entries independently of each other.
* `gaAistruct_post`, `searchHost_post` — the entries built for an address and a search.
-/

namespace TcpIp.Gai

open Fallible

/-- A string that is neither `NULL` nor empty. -/
def given : Option CString → Bool
  | none => false
  | some s => !s.isEmpty

/-! ### Checking the arguments -/

/-- The families `ga_echeck` knows, with the socket types it allows besides `0`. -/
def socktypesOf (family : ℤ) : Option (List ℤ) :=
  if family = afInet then some [sockStream, sockDgram, sockRaw]
  else if family = afInet6 then some [sockStream, sockDgram, sockRaw]
  else if family = afLocal then some [sockStream, sockDgram]
  else none

/-- `ga_echeck`: the error to return, if any. -/
def gaEcheck (hostname servname : Option CString) (hints : Hints) : Option Eai :=
  if hasFlag hints.flags (~~~(aiPassive ||| aiCanonname)) then some .badflags
  else if !given hostname && !given servname then some .noname
  else if hints.family = afUnspec then none
  else
    match socktypesOf hints.family with
    | none => some .family
    | some types =>
      if hints.socktype ≠ 0 ∧ hints.socktype ∉ types then some .socktype else none

/-- The arguments name a Unix domain socket. -/
def unixCase (hostname servname : Option CString) : Bool :=
  (hostname == some ['/', 'l', 'o', 'c', 'a', 'l'] || hostname == some ['/', 'u', 'n', 'i', 'x']) &&
    match servname with
    | some ('/' :: _) => true
    | _ => false

/-! ### Searches -/

/-- A name to look up in a family. -/
structure Search where
  host : CString
  family : ℤ
  deriving DecidableEq, Repr

/-- One of the three switches of `ga_nsearch`, with the name it has for each family. -/
def searchesFor (host4 host6 : CString) (family : ℤ) : List Search :=
  if family = afInet then [⟨host4, afInet⟩]
  else if family = afInet6 then [⟨host6, afInet6⟩]
  else if family = afUnspec then [⟨host6, afInet6⟩, ⟨host4, afInet⟩]
  else []

/-- The names `ga_nsearch` looks up when no host is given, IPv4 and IPv6. -/
def defaultHosts (hints : Hints) : CString × CString :=
  if hasFlag hints.flags aiPassive then (['0', '.', '0', '.', '0', '.', '0'], ['0', ':', ':', '0'])
  else (['l', 'o', 'c', 'a', 'l', 'h', 'o', 's', 't'], ['0', ':', ':', '1'])

/-- The names looked up, IPv4 and IPv6. -/
def hostsOf (hostname : Option CString) (hints : Hints) : CString × CString :=
  match hostname with
  | some (c :: t) => (c :: t, c :: t)
  | _ => defaultHosts hints

/-- The array `search[]` filled in by `ga_nsearch`. -/
def searches (hostname : Option CString) (hints : Hints) : List Search :=
  searchesFor (hostsOf hostname hints).1 (hostsOf hostname hints).2 hints.family

/-- `ga_nsearch`. -/
def gaNsearch (hostname : Option CString) (hints : Hints) : M (List Search) :=
  if (searches hostname hints).length < 1 ∨ 2 < (searches hostname hints).length then throw .quit
  else pure (searches hostname hints)

/-! ### Entries -/

/-- The entry `ga_aistruct` fills in. -/
def aistruct (hints : Hints) (addr : Addr) : Addrinfo where
  flags := if hints.socktype = 0 then aiClone else 0
  family := addr.family
  socktype := hints.socktype
  protocol := hints.protocol
  canonname := none
  addr := addr.sockaddr 0

/-- `ga_aistruct`. -/
def gaAistruct (env : Env) (hints : Hints) (addr : Addr) : M Addrinfo := do
  allocate env
  match addr with
  | .un path => if sunPathSize ≤ path.length then throw (.eai .service)
  | _ => pure ()
  allocate env
  pure (aistruct hints addr)

/-- `ga_clone`: the new entry. -/
def gaClone (env : Env) (ai : Addrinfo) : M Addrinfo := do
  allocate env
  allocate env
  pure { ai with flags := 0, canonname := none }

/-- The socket type and the port filled in by `ga_port`. -/
def Addrinfo.setPort (ai : Addrinfo) (port : UInt16) (socktype : ℤ) : Addrinfo :=
  { ai with socktype, addr := ai.addr.addr.sockaddr port }

/-- The entry has a port to fill in. -/
def Addrinfo.hasPort (ai : Addrinfo) : Bool := ai.addr.port.isSome

/-- `ga_port`: the list as it leaves it, and `nfound`. -/
def gaPort (env : Env) (port : UInt16) (socktype : ℤ) : List Addrinfo → M (List Addrinfo × ℕ)
  | [] => pure ([], 0)
  | ai :: next =>
    if hasFlag ai.flags aiClone then
      if ai.socktype ≠ 0 then do
        let new ← gaClone env ai
        let (next, nfound) ← gaPort env port socktype next
        pure (ai :: new.setPort port socktype :: next, nfound + if new.hasPort then 1 else 0)
      else do
        let (next, nfound) ← gaPort env port socktype next
        pure (ai.setPort port socktype :: next, nfound + if ai.hasPort then 1 else 0)
    else if ai.socktype ≠ socktype then do
      let (next, nfound) ← gaPort env port socktype next
      pure (ai :: next, nfound)
    else do
      let (next, nfound) ← gaPort env port socktype next
      pure (ai.setPort port socktype :: next, nfound + if ai.hasPort then 1 else 0)

/-- The part of `ga_serv` for one protocol. -/
def gaServname (env : Env) (hints : Hints) (serv : CString) (proto : Proto) (socktype : ℤ)
    (ais : List Addrinfo) : M (List Addrinfo × ℕ) :=
  if hints.socktype = 0 ∨ hints.socktype = socktype then
    match env.getservbyname serv proto with
    | some port => gaPort env port socktype ais
    | none => pure (ais, 0)
  else pure (ais, 0)

/-- The part of `ga_serv` that fills in the ports, with `nfound`. -/
def gaServPorts (env : Env) (ais : List Addrinfo) (hints : Hints) (serv : CString) :
    M (List Addrinfo × ℕ) :=
  if startsWithDigit serv then
    let port := env.htons (.ofNat (atoi serv))
    if hints.socktype ≠ 0 then gaPort env port hints.socktype ais
    else do
      let (ais, n₁) ← gaPort env port sockStream ais
      let (ais, n₂) ← gaPort env port sockDgram ais
      pure (ais, n₁ + n₂)
  else do
    let (ais, n₁) ← gaServname env hints serv .tcp sockStream ais
    let (ais, n₂) ← gaServname env hints serv .udp sockDgram ais
    pure (ais, n₁ + n₂)

/-- `ga_serv`. -/
def gaServ (env : Env) (ais : List Addrinfo) (hints : Hints) (serv : CString) :
    M (List Addrinfo) := do
  let (ais, nfound) ← gaServPorts env ais hints serv
  if nfound = 0 then throw (.eai (if hints.socktype = 0 then .noname else .service))
  else pure ais

/-- `aihead->ai_canonname = name`. -/
def setCanonname (name : CString) : List Addrinfo → List Addrinfo
  | [] => []
  | ai :: next => { ai with canonname := some name } :: next

/-- `ga_unix`.  The `unlink` of a path that is to be bound is left out. -/
def gaUnix (env : Env) (path : CString) (hints : Hints) : M (List Addrinfo) :=
  if hints.family ≠ afUnspec ∧ hints.family ≠ afLocal then throw (.eai .addrfamily)
  else do
    let types := if hints.socktype = 0 then [sockStream, sockDgram] else [hints.socktype]
    let ais ← types.mapM fun socktype => gaAistruct env { hints with socktype } (.un path)
    if hasFlag hints.flags aiCanonname then
      match env.uname with
      | none => throw (.eai .system)
      | some nodename => do
        allocate env
        pure (setCanonname nodename ais)
    else pure ais

/-! ### The search loop -/

/-- The check for an IPv4 dotted-decimal string. -/
def literal4 (env : Env) (host : CString) : Option (BitVec 32) :=
  if startsWithDigit host then env.inetPton4 host else none

/-- The check for an IPv6 hex string. -/
def literal6 (env : Env) (host : CString) : Option (BitVec 128) :=
  match host with
  | [] => none
  | c :: t => if (isXDigit c || c == ':') && (c :: t).contains ':' then env.inetPton6 host else none

/-- The address a string stands for by itself. -/
def literal (env : Env) (host : CString) : Option Addr :=
  match literal4 env host with
  | some a => some (.in4 a)
  | none => (literal6 env host).map .in6

/-- The canonical name was asked for. -/
def wantsCanon (hostname : Option CString) (hints : Hints) : Bool :=
  given hostname && hasFlag hints.flags aiCanonname

/-- The error for an unsuccessful lookup. -/
def HErrno.eai : HErrno → Eai
  | .hostNotFound => .noname
  | .tryAgain => .again
  | .noRecovery => .fail
  | .noData => .nodata
  | .other _ => .noname

/-- The resolver's answer to a search: both families are asked by
`gethostbyname2`, one by `gethostbyname`. -/
def ask (env : Env) (nsearch : ℕ) (s : Search) : Except HErrno Hostent :=
  if nsearch = 2 then env.gethostbyname2 s.host s.family
  else env.gethostbyname (s.family == afInet6) s.host

/-- The canonical name is saved the first time one is found. -/
def saveCanon (env : Env) (hostname : Option CString) (hints : Hints) (canon : Option CString)
    (name : CString) : M (Option CString) :=
  if wantsCanon hostname hints && canon.isNone then do
    allocate env
    pure (some name)
  else pure canon

/-- The body of the loop over `search[]`: the entries it appends, and `canon`. -/
def searchHost (env : Env) (hostname : Option CString) (hints : Hints) (nsearch : ℕ)
    (s : Search) (canon : Option CString) : M (List Addrinfo × Option CString) :=
  match literal env s.host with
  | some a =>
    if hints.family ≠ afUnspec ∧ hints.family ≠ a.family then throw (.eai .addrfamily)
    else if s.family ≠ a.family then pure ([], canon)
    else do
      let ai ← gaAistruct env hints a
      pure ([ai], canon)
  | none =>
    match ask env nsearch s with
    | .error e => if nsearch = 2 then pure ([], canon) else throw (.eai e.eai)
    | .ok h =>
      if hints.family ≠ afUnspec ∧ hints.family ≠ h.addrtype then throw (.eai .addrfamily)
      else do
        let canon ← saveCanon env hostname hints canon h.name
        let ais ← h.addrList.mapM (gaAistruct env hints)
        pure (ais, canon)

/-- The loop over `search[]`. -/
def searchAll (env : Env) (hostname : Option CString) (hints : Hints) (nsearch : ℕ) :
    List Search → Option CString → M (List Addrinfo × Option CString)
  | [], canon => pure ([], canon)
  | s :: ss, canon => do
    let (ais, canon) ← searchHost env hostname hints nsearch s canon
    let (more, canon) ← searchAll env hostname hints nsearch ss canon
    pure (ais ++ more, canon)

/-- The canonical name that was saved, or else the name `host` that was looked up,
goes to the first entry. -/
def giveCanon (env : Env) (hostname : Option CString) (hints : Hints) (host : CString)
    (canon : Option CString) (ais : List Addrinfo) : M (List Addrinfo) :=
  if wantsCanon hostname hints then
    match canon with
    | some name => pure (setCanonname name ais)
    | none => do
      allocate env
      pure (setCanonname host ais)
  else pure ais

/-- The service is looked up if there is one. -/
def service (env : Env) (servname : Option CString) (hints : Hints) (ais : List Addrinfo) :
    M (List Addrinfo) :=
  match servname with
  | some (c :: t) => gaServ env ais hints (c :: t)
  | _ => pure ais

/-- The remainder of `getaddrinfo`, for IPv4 and IPv6. -/
def getaddrinfoInet (env : Env) (hostname servname : Option CString) (hints : Hints) :
    M (List Addrinfo) := do
  let search ← gaNsearch hostname hints
  let (ais, canon) ← searchAll env hostname hints search.length search none
  if ais.isEmpty then throw (.eai .noname)
  else do
    let ais ← giveCanon env hostname hints ((search.map Search.host).headD []) canon ais
    service env servname hints ais

/-- `getaddrinfo`.  A result is the list returned with `0`. -/
def getaddrinfo (env : Env) (hostname servname : Option CString) (hintsp : Option Hints) :
    M (List Addrinfo) :=
  match gaEcheck hostname servname (hintsp.getD {}) with
  | some e => throw (.eai e)
  | none =>
    if unixCase hostname servname then gaUnix env (servname.getD []) (hintsp.getD {})
    else getaddrinfoInet env hostname servname (hintsp.getD {})

/-! ### Building entries -/

/-- Addresses of the internet families. -/
def Addr.isInet : Addr → Bool
  | .un _ => false
  | _ => true

theorem gaAistruct_post (env : Env) (hints : Hints) {a : Addr} (ha : a.isInet) :
    Post (gaAistruct env hints a) (· = aistruct hints a) env.MemFail := by
  unfold gaAistruct
  refine post_bind (allocate_post env) fun _ _ => ?_
  cases a with
  | un path => cases ha
  | _ => exact post_bind (allocate_post env) fun _ _ => post_pure rfl

theorem gaClone_post (env : Env) (ai : Addrinfo) :
    Post (gaClone env ai) (· = { ai with flags := 0, canonname := none }) env.MemFail :=
  post_bind (allocate_post env) fun _ _ => post_bind (allocate_post env) fun _ _ => post_pure rfl

/-! ### A pass of `ga_port` -/

/-- What a pass makes of one entry. -/
def portNode (port : UInt16) (socktype : ℤ) (ai : Addrinfo) : List Addrinfo :=
  if hasFlag ai.flags aiClone then
    if ai.socktype ≠ 0 then
      [ai, { ai with flags := 0, canonname := none }.setPort port socktype]
    else [ai.setPort port socktype]
  else if ai.socktype ≠ socktype then [ai] else [ai.setPort port socktype]

/-- A clone has a port exactly when its original has one. -/
theorem hasPort_clone (ai : Addrinfo) (flags : BitVec 32) (canonname : Option CString) :
    ({ ai with flags, canonname } : Addrinfo).hasPort = ai.hasPort := rfl

/-- The entry is counted in `nfound`. -/
def portFound (socktype : ℤ) (ai : Addrinfo) : Bool :=
  (hasFlag ai.flags aiClone || ai.socktype == socktype) && ai.hasPort

/-- **A pass treats the entries independently of each other**: an entry spliced in
behind its original is not treated again. -/
theorem gaPort_post (env : Env) (port : UInt16) (socktype : ℤ) : ∀ (ais : List Addrinfo),
    Post (gaPort env port socktype ais)
      (· = (ais.flatMap (portNode port socktype), ais.countP (portFound socktype)))
      env.MemFail := by
  intro ais
  induction ais with
  | nil => exact post_pure rfl
  | cons ai next ih =>
    unfold gaPort
    rw [List.flatMap_cons, List.countP_cons]
    split
    · next hclone =>
      split
      · next hused =>
        refine post_bind (gaClone_post env ai) ?_
        rintro _ rfl
        refine post_bind ih ?_
        rintro _ rfl
        refine post_pure ?_
        cases hport : ai.hasPort <;>
          simp [portNode, portFound, hasPort_clone, hclone, hused, hport]
      · next hused =>
        refine post_bind ih ?_
        rintro _ rfl
        refine post_pure ?_
        simp [portNode, portFound, hclone, hused]
    · next hclone =>
      split
      · next hother =>
        refine post_bind ih ?_
        rintro _ rfl
        refine post_pure ?_
        simp [portNode, portFound, hclone, hother]
      · next hother =>
        refine post_bind ih ?_
        rintro _ rfl
        refine post_pure ?_
        simp [portNode, portFound, hclone, not_not.mp hother]

end TcpIp.Gai
