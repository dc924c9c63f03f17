import TcpIp.Gai.Phases

/-!
# What `getaddrinfo` returns

The list returned on the IPv4 and IPv6 path is a product: the addresses found,
in the order of the lookups, and for each of them the socket types of the
service.

A service whose first character is a digit is taken for a port number, whatever
follows it: its value is that of its leading digits, and the services database is
not asked.

## Main definitions

* `addresses`, `types`, `portFor` — the two factors, and the port that goes with a
  socket type.
* `Entry` — what a caller reads in an entry.

## Main results

* `getaddrinfo_law` — the product law.
* `digit_service_taken_for_port` — a service of the database that is not looked up.
-/

namespace TcpIp.Gai

open Fallible

/-! ### The two factors -/

/-- The addresses of the family `f` found for the host.  Both families are asked for
by `gethostbyname2` if none is given, and the given one by `gethostbyname`. -/
def lookup (env : Env) (hostname : Option CString) (hints : Hints) (f : ℤ) : List Addr :=
  let name := if f = afInet6 then (hostsOf hostname hints).2 else (hostsOf hostname hints).1
  resolved env name f
    (if hints.family = afUnspec then env.gethostbyname2 name f
      else env.gethostbyname (f == afInet6) name)

/-- The addresses found: IPv6 first, then IPv4, or those of the given family. -/
def addresses (env : Env) (hostname : Option CString) (hints : Hints) : List Addr :=
  if hints.family = afUnspec then
    lookup env hostname hints afInet6 ++ lookup env hostname hints afInet
  else lookup env hostname hints hints.family

/-- The socket types: the given one, none in particular, or those of the service. -/
def types (env : Env) (servname : Option CString) (hints : Hints) : List ℤ :=
  if hints.socktype ≠ 0 then [hints.socktype]
  else
    match servname with
    | some (c :: t) =>
      if startsWithDigit (c :: t) then [sockStream, sockDgram]
      else
        (if (env.getservbyname (c :: t) .tcp).isSome then [sockStream] else []) ++
          (if (env.getservbyname (c :: t) .udp).isSome then [sockDgram] else [])
    | _ => [0]

/-- The port of the service for a socket type, as a number; `0` without a service. -/
def portFor (env : Env) (servname : Option CString) (t : ℤ) : ℕ :=
  match servname with
  | some (c :: cs) =>
    if startsWithDigit (c :: cs) then atoi (c :: cs)
    else
      ((env.getservbyname (c :: cs) (if t = sockStream then .tcp else .udp)).map
        fun p => (env.ntohs p).toNat).getD 0
  | _ => 0

/-- What a caller reads in an entry, with the port as a number. -/
structure Entry where
  family : ℤ
  addr : Addr
  socktype : ℤ
  port : ℕ
  protocol : ℤ
  deriving DecidableEq, Repr

def Addrinfo.entry (env : Env) (ai : Addrinfo) : Entry where
  family := ai.family
  addr := ai.addr.addr
  socktype := ai.socktype
  port := (ai.addr.port.map fun p => (env.ntohs p).toNat).getD 0
  protocol := ai.protocol

/-- The entry for an address and a socket type. -/
def entryFor (env : Env) (servname : Option CString) (hints : Hints) (a : Addr) (t : ℤ) : Entry :=
  ⟨a.family, a, t, portFor env servname t, hints.protocol⟩

/-! ### The addresses -/

/-- The searches find the addresses. -/
theorem flatMap_found (env : Env) (hostname : Option CString) (hints : Hints)
    (hne : searches hostname hints ≠ []) :
    (searches hostname hints).flatMap (found env (searches hostname hints).length)
      = addresses env hostname hints := by
  unfold addresses
  unfold searches searchesFor at hne ⊢
  by_cases hunspec : hints.family = afUnspec
  · simp [hunspec, afUnspec, afInet, afInet6, found, lookup, ask]
  · by_cases hin : hints.family = afInet
    · simp [hin, afUnspec, afInet, afInet6, found, lookup, ask]
    · by_cases hin6 : hints.family = afInet6
      · simp [hin6, afUnspec, afInet, afInet6, found, lookup, ask]
      · simp [hunspec, hin, hin6] at hne

/-- If no family is given, the addresses are of the family they were looked up for. -/
theorem family_of_mem_lookup {env : Env} {hostname : Option CString} {hints : Hints}
    (hres : ∀ h f x, env.gethostbyname2 h f = .ok x → x.addrtype = f)
    (hunspec : hints.family = afUnspec) {f : ℤ} {a : Addr}
    (ha : a ∈ lookup env hostname hints f) : a.family = f := by
  rcases mem_resolved ha with ⟨-, hf⟩ | ⟨h, hans, hmem⟩
  · exact hf.symm
  · rw [if_pos hunspec] at hans
    rw [Hostent.family_of_mem hmem, hres _ _ _ hans]

theorem isInet_of_mem_addresses {env : Env} {hostname : Option CString} {hints : Hints} {a : Addr}
    (ha : a ∈ addresses env hostname hints) : a.isInet := by
  unfold addresses at ha
  split at ha
  · rw [List.mem_append] at ha
    rcases ha with ha | ha
    · exact isInet_of_mem_resolved ha
    · exact isInet_of_mem_resolved ha
  · exact isInet_of_mem_resolved ha

/-! ### The socket types -/

/-- The socket types the service phase fills in are those of the service, with its
ports. -/
theorem servTypes_spec {env : Env} {hints : Hints} {c : Char} {cs : CString}
    (hport : startsWithDigit (c :: cs) → atoi (c :: cs) < 65536)
    (hne : servTypes env hints (c :: cs) ≠ []) :
    (servTypes env hints (c :: cs)).map (fun p => (p.1, (env.ntohs p.2).toNat))
      = (types env (some (c :: cs)) hints).map fun t => (t, portFor env (some (c :: cs)) t) := by
  by_cases hdigit : startsWithDigit (c :: cs)
  · have hlt := hport hdigit
    by_cases hzero : hints.socktype = 0
    · simp [servTypes, types, portFor, hdigit, hzero, hlt]
    · simp [servTypes, types, portFor, hdigit, hzero, hlt]
  · by_cases hzero : hints.socktype = 0
    · -- no socket type is given: TCP and UDP each contribute if they know the name
      cases htcp : env.getservbyname (c :: cs) .tcp <;>
        cases hudp : env.getservbyname (c :: cs) .udp <;>
        simp [servTypes, types, portFor, protoTypes, hdigit, hzero, htcp, hudp, sockStream,
          sockDgram]
    · -- a socket type is given, and its protocol knows the name
      by_cases hstream : hints.socktype = sockStream
      · cases htcp : env.getservbyname (c :: cs) .tcp <;>
          simp_all [servTypes, types, portFor, protoTypes, sockStream, sockDgram]
      · by_cases hdgram : hints.socktype = sockDgram
        · cases hudp : env.getservbyname (c :: cs) .udp <;>
            simp_all [servTypes, types, portFor, protoTypes, sockStream, sockDgram]
        · simp [servTypes, protoTypes, hdigit, hzero, hstream, hdgram] at hne

/-! ### The entries -/

theorem entry_setPort {env : Env} {ai : Addrinfo} (hai : ai.addr.addr.isInet) (port : UInt16)
    (t : ℤ) : (ai.setPort port t).entry env
      = ⟨ai.family, ai.addr.addr, t, (env.ntohs port).toNat, ai.protocol⟩ := by
  cases haddr : ai.addr with
  | in4 p a => simp [Addrinfo.setPort, Addrinfo.entry, haddr, Sockaddr.addr, Addr.sockaddr,
      Sockaddr.port]
  | in6 p a => simp [Addrinfo.setPort, Addrinfo.entry, haddr, Sockaddr.addr, Addr.sockaddr,
      Sockaddr.port]
  | un path => simp [haddr, Sockaddr.addr, Addr.isInet] at hai

/-- The entries for the address of an entry, given socket types with their ports. -/
def entriesAt (ts : List (ℤ × ℕ)) (ai : Addrinfo) : List Entry :=
  ts.map fun q => ⟨ai.family, ai.addr.addr, q.1, q.2, ai.protocol⟩

/-- The entries an entry is spread to. -/
theorem map_entry_spread {env : Env} {ai : Addrinfo} (hai : ai.addr.addr.isInet)
    {ts : List (ℤ × UInt16)} (hts : ts ≠ []) :
    (spread ai ts).map (Addrinfo.entry env)
      = entriesAt (ts.map fun p => (p.1, (env.ntohs p.2).toNat)) ai := by
  cases ts with
  | nil => exact absurd rfl hts
  | cons p ts =>
    simp only [spread, entriesAt, List.map_cons, List.map_map, List.cons.injEq]
    refine ⟨entry_setPort hai _ _, ?_⟩
    refine List.map_congr_left fun q _ => ?_
    exact @entry_setPort env { ai with flags := 0, canonname := none } hai _ _

/-- The canonical name is on the first entry, if it was asked for, and on no other. -/
def CanonFirst (wanted : Bool) (ais : List Addrinfo) : Prop :=
  ∃ first rest, ais = first :: rest ∧ (first.canonname.isSome ↔ wanted) ∧
    ∀ ai ∈ rest, ai.canonname = none

/-- Clones have no canonical name. -/
theorem canonFirst_flatMap_spread {wanted : Bool} {ais : List Addrinfo}
    (h : CanonFirst wanted ais) (ts : List (ℤ × UInt16)) :
    CanonFirst wanted (ais.flatMap (spread · ts)) := by
  obtain ⟨first, rest, rfl, hfirst, hrest⟩ := h
  have hspread : ∀ ai : Addrinfo, ∃ hd tl, spread ai ts = hd :: tl ∧
      hd.canonname = ai.canonname ∧ ∀ x ∈ tl, x.canonname = none := by
    intro ai
    cases ts with
    | nil => exact ⟨ai, [], rfl, rfl, fun x hx => by cases hx⟩
    | cons p ts =>
      refine ⟨_, _, rfl, rfl, fun x hx => ?_⟩
      obtain ⟨q, -, rfl⟩ := List.mem_map.mp hx
      rfl
  obtain ⟨hd, tl, heq, hhd, htl⟩ := hspread first
  refine ⟨hd, tl ++ rest.flatMap (spread · ts), ?_, by rw [hhd]; exact hfirst, ?_⟩
  · rw [List.flatMap_cons, heq, List.cons_append]
  · intro x hx
    rcases List.mem_append.mp hx with hx | hx
    · exact htl x hx
    · obtain ⟨ai, hai, hx⟩ := List.mem_flatMap.mp hx
      obtain ⟨hd', tl', heq', hhd', htl'⟩ := hspread ai
      rw [heq', List.mem_cons] at hx
      rcases hx with rfl | hx
      · rw [hhd', hrest ai hai]
      · exact htl' x hx

/-- The list between the two phases: an entry for each address, with the canonical
name on the first one. -/
structure Looked (hints : Hints) (wanted : Bool) (as : List Addr) (ais : List Addrinfo) : Prop where
  canon : CanonFirst wanted ais
  same : ais.map (fun ai => { ai with canonname := none }) = as.map (aistruct hints)

theorem giveCanon_post (env : Env) (hostname : Option CString) (hints : Hints) (host : CString)
    (canon : Option CString) {as : List Addr} (hne : as ≠ []) :
    Post (giveCanon env hostname hints host canon (as.map (aistruct hints)))
      (Looked hints (wantsCanon hostname hints) as) env.MemFail := by
  obtain ⟨a, as, rfl⟩ := List.exists_cons_of_ne_nil hne
  have hrest : ∀ ai ∈ as.map (aistruct hints), ai.canonname = none := by
    intro ai hai
    obtain ⟨b, -, rfl⟩ := List.mem_map.mp hai
    rfl
  have hsame : (as.map (aistruct hints)).map (fun ai => { ai with canonname := none })
      = as.map (aistruct hints) := by
    rw [List.map_map]
    rfl
  have hnamed (name : CString) (hw : wantsCanon hostname hints) :
      Looked hints (wantsCanon hostname hints) (a :: as)
        (setCanonname name ((a :: as).map (aistruct hints))) :=
    ⟨⟨_, _, rfl, by simp [hw], hrest⟩, by simp [setCanonname, hsame, aistruct]⟩
  unfold giveCanon
  by_cases hw : wantsCanon hostname hints
  · rw [if_pos hw]
    cases canon with
    | some name => exact post_pure (hnamed name hw)
    | none =>
      exact post_bind (allocate_post env) fun _ _ => post_pure (hnamed host hw)
  · rw [if_neg hw]
    exact post_pure ⟨⟨_, _, rfl, by simp [aistruct, hw], hrest⟩, by simp [hsame, aistruct]⟩

section Looked

variable {hints : Hints} {wanted : Bool} {as : List Addr} {ais : List Addrinfo}
  (h : Looked hints wanted as ais)
include h

theorem Looked.exists_addr {ai : Addrinfo} (hai : ai ∈ ais) :
    ∃ a ∈ as, { ai with canonname := none } = aistruct hints a := by
  have hmem : { ai with canonname := none } ∈ as.map (aistruct hints) := by
    rw [← h.same]
    exact List.mem_map_of_mem hai
  obtain ⟨a, ha, heq⟩ := List.mem_map.mp hmem
  exact ⟨a, ha, heq.symm⟩

/-- What does not depend on the canonical name can be read off the addresses. -/
theorem Looked.flatMap_eq {β : Type} (F K : Addrinfo → List β)
    (hFK : ∀ ai ∈ ais, F ai = K { ai with canonname := none }) :
    ais.flatMap F = as.flatMap fun a => K (aistruct hints a) := by
  rw [List.flatMap_congr hFK, ← List.flatMap_map, h.same, List.flatMap_map]

theorem Looked.isInet (has : ∀ a ∈ as, a.isInet) {ai : Addrinfo} (hai : ai ∈ ais) :
    ai.addr.addr.isInet := by
  obtain ⟨a, ha, heq⟩ := h.exists_addr hai
  have haddr : ai.addr = a.sockaddr 0 := congrArg Addrinfo.addr heq
  rw [haddr, Sockaddr.addr_sockaddr]
  exact has a ha

theorem Looked.fresh (has : ∀ a ∈ as, a.isInet) {ai : Addrinfo} (hai : ai ∈ ais) :
    Fresh hints ai := by
  obtain ⟨a, ha, heq⟩ := h.exists_addr hai
  have haddr : ai.addr = a.sockaddr 0 := congrArg Addrinfo.addr heq
  refine ⟨congrArg Addrinfo.flags heq, congrArg Addrinfo.socktype heq, ?_⟩
  have hin := has a ha
  cases a with
  | un path => cases hin
  | _ => simp [Addrinfo.hasPort, haddr, Addr.sockaddr, Sockaddr.port]

end Looked

theorem toNat_ntohs_zero (env : Env) : (env.ntohs 0).toNat = 0 := by
  cases h : env.bigEndian <;> simp [Env.ntohs, Env.htons, h, swapBytes]

/-- A service taken for a port number is one. -/
def PortsInRange (servname : Option CString) : Prop :=
  ∀ serv, servname = some serv → startsWithDigit serv → atoi serv < 65536

/-- Without a service the entries stay as they are. -/
theorem service_of_not_given {servname : Option CString} (h : ¬ given servname) (env : Env)
    (hints : Hints) (ais : List Addrinfo) : service env servname hints ais = pure ais := by
  rcases servname with _ | _ | ⟨c, cs⟩
  · rfl
  · rfl
  · exact absurd rfl h

/-- Without a service there is the socket type of the hints, and no port. -/
theorem types_of_not_given {servname : Option CString} (h : ¬ given servname) (env : Env)
    (hints : Hints) :
    types env servname hints = [hints.socktype] ∧ portFor env servname hints.socktype = 0 := by
  rcases servname with _ | _ | ⟨c, cs⟩
  · by_cases hzero : hints.socktype = 0 <;> simp [types, portFor, hzero]
  · by_cases hzero : hints.socktype = 0 <;> simp [types, portFor, hzero]
  · exact absurd rfl h

/-- The service phase makes the product. -/
theorem service_post (env : Env) {hints : Hints} {wanted : Bool} {as : List Addr}
    {ais : List Addrinfo} (h : Looked hints wanted as ais) (has : ∀ a ∈ as, a.isInet)
    (servname : Option CString) :
    Post (service env servname hints ais)
      (fun r => CanonFirst wanted r ∧ (PortsInRange servname → r.map (Addrinfo.entry env)
        = as.flatMap fun a => (types env servname hints).map (entryFor env servname hints a)))
      Behind := by
  have hne : ais ≠ [] := by
    obtain ⟨first, rest, rfl, -⟩ := h.canon
    nofun
  by_cases hserv : given servname
  · obtain ⟨c, cs, rfl⟩ : ∃ c cs, servname = some (c :: cs) := by
      rcases servname with _ | _ | ⟨c, cs⟩
      · cases hserv
      · cases hserv
      · exact ⟨c, cs, rfl⟩
    refine (gaServ_post env hints (c :: cs) hne fun ai hai => h.fresh has hai).mono ?_
      fun e he => he.elim (behind_of_memFail e) And.right
    rintro _ ⟨hts, rfl⟩
    refine ⟨canonFirst_flatMap_spread h.canon _, fun hport => ?_⟩
    rw [List.map_flatMap, h.flatMap_eq _ (entriesAt _) fun ai hai =>
      map_entry_spread (h.isInet has hai) hts]
    refine List.flatMap_congr fun a _ => ?_
    rw [servTypes_spec (hport _ rfl) hts, entriesAt, List.map_map]
    simp [aistruct, entryFor, Function.comp_def]
  · -- no service
    obtain ⟨htypes, hport⟩ := types_of_not_given hserv env hints
    rw [service_of_not_given hserv]
    refine post_pure ⟨h.canon, fun _ => ?_⟩
    rw [List.map_eq_flatMap,
      h.flatMap_eq (fun ai => [ai.entry env]) (fun ai => [ai.entry env]) fun ai _ => rfl]
    refine List.flatMap_congr fun a ha => ?_
    rw [htypes, List.map_singleton, entryFor, hport]
    have hin := has a ha
    cases a with
    | un path => cases hin
    | _ => simp [Addrinfo.entry, aistruct, Addr.sockaddr, Sockaddr.port, Sockaddr.addr,
        toNat_ntohs_zero]

/-! ### The law -/

theorem length_searches_le (hostname : Option CString) (hints : Hints) :
    (searches hostname hints).length ≤ 2 := by
  unfold searches searchesFor
  split
  · exact Nat.le_succ 1
  · split
    · exact Nat.le_succ 1
    · split
      · exact Nat.le_refl 2
      · exact Nat.zero_le 2

/-- `ga_nsearch` leaves the process only if it has nothing to search for. -/
theorem gaNsearch_eq (hostname : Option CString) (hints : Hints) :
    gaNsearch hostname hints
      = if searches hostname hints = [] then throw .quit else pure (searches hostname hints) := by
  have hle := length_searches_le hostname hints
  unfold gaNsearch
  by_cases hnil : searches hostname hints = []
  · rw [if_pos hnil, hnil, if_pos (.inl Nat.zero_lt_one)]
  · have hpos := List.length_pos_iff.mpr hnil
    rw [if_neg hnil, if_neg (by omega)]

theorem gaNsearch_post (hostname : Option CString) (hints : Hints) :
    Post (gaNsearch hostname hints)
      (fun ss => ss = searches hostname hints ∧ searches hostname hints ≠ [])
      (fun _ => searches hostname hints = []) := by
  rw [gaNsearch_eq]
  split
  · next hnil => exact post_throw hnil
  · next hne => exact post_pure ⟨rfl, hne⟩

/-- The two phases one after the other: the list that the service phase is given has an
entry for each address.  The process is left only if `ga_nsearch` has nothing to search
for. -/
theorem getaddrinfoInet_post_of_service {env : Env} {hostname servname : Option CString}
    {hints : Hints} {Q : List Addrinfo → Prop}
    (hservice : ∀ ais, Looked hints (wantsCanon hostname hints) (addresses env hostname hints) ais →
      Post (service env servname hints ais) Q Behind) :
    Post (getaddrinfoInet env hostname servname hints)
      (fun r => (hints.family = afUnspec ∨
          ∀ a ∈ addresses env hostname hints, a.family = hints.family) ∧ Q r)
      (fun e => Behind e ∨ searches hostname hints = []) := by
  unfold getaddrinfoInet
  refine post_bind ((gaNsearch_post hostname hints).mono (fun _ h => h) fun _ he => .inr he) ?_
  rintro _ ⟨rfl, hne⟩
  refine post_bind ((searchAll_post env hostname hints _ _ none).mono (fun _ h => h)
    fun _ he => .inl he) ?_
  rintro ⟨ais, canon⟩ ⟨hais, hfam⟩
  simp only at hais
  rw [flatMap_found env hostname hints hne] at hais hfam
  subst hais
  simp only [List.isEmpty_map]
  split
  · exact post_throw (.inl ⟨_, rfl, by decide⟩)
  · next hempty =>
    have hsome : addresses env hostname hints ≠ [] := by
      intro hnil
      rw [hnil] at hempty
      exact hempty rfl
    refine post_bind ((giveCanon_post env hostname hints _ canon hsome).mono (fun _ h => h)
      fun e he => .inl (behind_of_memFail e he)) fun ais hlooked => ?_
    exact (hservice ais hlooked).mono (fun r hr => ⟨hfam, hr⟩) fun _ he => .inl he

/-- What is returned on the IPv4 and IPv6 path. -/
theorem getaddrinfoInet_post (env : Env) (hostname servname : Option CString) (hints : Hints) :
    Post (getaddrinfoInet env hostname servname hints)
      (fun r =>
        (hints.family = afUnspec ∨
          ∀ a ∈ addresses env hostname hints, a.family = hints.family) ∧
        CanonFirst (wantsCanon hostname hints) r ∧
        (PortsInRange servname →
          r.map (Addrinfo.entry env) = (addresses env hostname hints).flatMap fun a =>
            (types env servname hints).map (entryFor env servname hints a)))
      (fun e => Behind e ∨ searches hostname hints = []) :=
  getaddrinfoInet_post_of_service fun _ hlooked =>
    service_post env hlooked (fun _ ha => isInet_of_mem_addresses ha) servname

/-- A call that returns `0` and is not about a Unix domain name has taken the IPv4 and IPv6
path. -/
theorem getaddrinfoInet_of_ok {env : Env} {hostname servname : Option CString}
    {hintsp : Option Hints} (hunix : unixCase hostname servname = false) {n : ℕ}
    {r : List Addrinfo × ℕ} (hrun : getaddrinfo env hostname servname hintsp n = .ok r) :
    getaddrinfoInet env hostname servname (hintsp.getD {}) n = .ok r := by
  cases hcheck : gaEcheck hostname servname (hintsp.getD {}) with
  | some e =>
    rw [getaddrinfo, hcheck] at hrun
    cases hrun
  | none =>
    rw [getaddrinfo, hcheck, hunix] at hrun
    exact hrun

/-- **The product law.**  A call that returns `0` on the IPv4 and IPv6 path returns, for
each address found and in their order, one entry for each socket type of the
service, with the port of the service for it.  The canonical name is on the first
entry, exactly if it was asked for, and on no other.  If no family is given, the
IPv6 addresses come first and then the IPv4 ones; otherwise all are of that family. -/
theorem getaddrinfo_law (env : Env) (hostname servname : Option CString) (hintsp : Option Hints)
    (hres : ∀ h f x, env.gethostbyname2 h f = .ok x → x.addrtype = f)
    (hport : PortsInRange servname)
    (hunix : unixCase hostname servname = false) (n n' : ℕ) (ais : List Addrinfo)
    (hrun : getaddrinfo env hostname servname hintsp n = .ok (ais, n')) :
    let hints := hintsp.getD {}
    (hints.family = afUnspec →
      addresses env hostname hints
        = lookup env hostname hints afInet6 ++ lookup env hostname hints afInet ∧
      ∀ f, ∀ a ∈ lookup env hostname hints f, a.family = f) ∧
    (hints.family ≠ afUnspec →
      addresses env hostname hints = lookup env hostname hints hints.family ∧
      ∀ a ∈ addresses env hostname hints, a.family = hints.family) ∧
    ais.map (Addrinfo.entry env) = (addresses env hostname hints).flatMap (fun a =>
      (types env servname hints).map fun t =>
        ⟨a.family, a, t, portFor env servname t, hints.protocol⟩) ∧
    ∃ first rest, ais = first :: rest ∧
      (first.canonname.isSome ↔ given hostname ∧ hasFlag hints.flags aiCanonname) ∧
      ∀ ai ∈ rest, ai.canonname = none := by
  intro hints
  obtain ⟨hfam, hcanon, hentries⟩ :=
    (getaddrinfoInet_post env hostname servname hints).ok (getaddrinfoInet_of_ok hunix hrun)
  refine ⟨fun hunspec => ⟨if_pos hunspec, fun f a ha => family_of_mem_lookup hres hunspec ha⟩,
    fun hspec => ⟨if_neg hspec, hfam.resolve_left hspec⟩, hentries hport, ?_⟩
  obtain ⟨first, rest, heq, hfirst, hrest⟩ := hcanon
  refine ⟨first, rest, heq, ?_, hrest⟩
  rw [hfirst, wantsCanon, Bool.and_eq_true]

/-- `"9pfs"`, a service whose name starts with a digit. -/
def ninePfs : CString := ['9', 'p', 'f', 's']

/-- A little-endian system with one IPv4 address for every host name, and a services
database in which `"9pfs"` is known under TCP, with port `564`. -/
def sampleEnv : Env where
  bigEndian := false
  alloc := fun _ => true
  inetPton4 := fun _ => none
  inetPton6 := fun _ => none
  inetNtop4 := fun _ => []
  inetNtop6 := fun _ => []
  gethostbyname2 := fun h f =>
    if f = afInet then .ok ⟨h, .inl [0xC0000201]⟩ else .error .hostNotFound
  gethostbyname := fun _ _ => .error .hostNotFound
  gethostbyaddr := fun _ => none
  getservbyname := fun s p => if s = ninePfs ∧ p = .tcp then some (swapBytes 564) else none
  getservbyport := fun _ _ => none
  uname := none

theorem getaddrinfo_law_port80 : ∃ ais n',
    getaddrinfo sampleEnv (some ['h']) (some ['8', '0']) none 0 = .ok (ais, n') ∧
      ais.map (Addrinfo.entry sampleEnv)
        = [⟨afInet, .in4 0xC0000201, sockStream, 80, 0⟩,
          ⟨afInet, .in4 0xC0000201, sockDgram, 80, 0⟩] := by
  have hres : ∀ h f x, sampleEnv.gethostbyname2 h f = .ok x → x.addrtype = f := by
    intro h f x hx
    simp only [sampleEnv] at hx
    split at hx
    · next hf =>
      cases hx
      exact hf.symm
    · cases hx
  cases hrun : getaddrinfo sampleEnv (some ['h']) (some ['8', '0']) none 0 with
  | error e =>
    have hok : (getaddrinfo sampleEnv (some ['h']) (some ['8', '0']) none 0).isOk = true := by
      decide
    rw [hrun] at hok
    cases hok
  | ok r =>
    have hlaw := getaddrinfo_law sampleEnv (some ['h']) (some ['8', '0']) none hres
      (by rintro _ ⟨⟩ _; decide) (by decide) 0 r.2 r.1 hrun
    exact ⟨r.1, r.2, rfl, hlaw.2.2.1.trans (by decide)⟩

/-- **A service name that starts with a digit is not looked up**: `"9pfs"` exists under
TCP only, with port `564`, and the call returns an entry for both socket types, with
port `9`. -/
theorem digit_service_taken_for_port :
    (sampleEnv.getservbyname ninePfs .tcp).map sampleEnv.ntohs = some 564 ∧
      sampleEnv.getservbyname ninePfs .udp = none ∧
      (getaddrinfo sampleEnv (some ['h']) (some ninePfs) none 0).toOption.map
          (fun r => r.1.map (Addrinfo.entry sampleEnv))
        = some [⟨afInet, .in4 0xC0000201, sockStream, 9, 0⟩,
          ⟨afInet, .in4 0xC0000201, sockDgram, 9, 0⟩] := by
  decide

end TcpIp.Gai
