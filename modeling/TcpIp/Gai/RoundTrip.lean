import TcpIp.Gai.Law

/-!
# Numeric names and back

`getnameinfo` turns a socket address into a host and a service name; with
`NI_NUMERICHOST` and `NI_NUMERICSERV` both are numbers.  Given to `getaddrinfo`, they
lead back to the socket address they were made from, in one entry: of the two
searches made when no family is given, the one for the other family is passed
over.

What is assumed of the conversions between addresses and text is in `Textual`.

## Main definitions

* `gnIpv46`, `getnameinfo` — the functions of the source.
* `Textual` — what `inet_ntop` and `inet_pton` have to do with each other.

## Main results

* `getaddrinfo_literal_post` — the lookup of an address given as text.
* `numeric_round_trip` — the way back.
-/

namespace TcpIp.Gai

open Fallible

/-! ### `getnameinfo` -/

/-- `inet_ntop(family, aptr, host, hostlen)`, with `none` for `NULL`. -/
def inetNtop (env : Env) (hostlen : ℕ) (a : Addr) : Option CString :=
  let text := match a with
    | .in4 a => some (env.inetNtop4 a)
    | .in6 a => some (env.inetNtop6 a)
    | .un _ => none
  text.filter fun s => s.length < hostlen

/-- `snprintf(buf, len, "%s", s)`, for a buffer of at least one byte. -/
def snprintf (len : ℕ) (s : CString) : CString := s.take (len - 1)

/-- The host part of `gn_ipv46`: `none` for `return(1)`, and otherwise what is stored,
nothing in a buffer without room. -/
def gnHost (env : Env) (hostlen : ℕ) (a : Addr) (flags : BitVec 32) : Option (Option CString) :=
  if hostlen = 0 then some none
  else if hasFlag flags niNumerichost then (inetNtop env hostlen a).map some
  else
    match env.gethostbyaddr a with
    | some (some name) =>
      -- with `NI_NOFQDN` the name ends before its first dot
      some (some (snprintf hostlen
        (if hasFlag flags niNofqdn then name.takeWhile (· != '.') else name)))
    | _ => if hasFlag flags niNamereqd then none else (inetNtop env hostlen a).map some

/-- The service part of `gn_ipv46`. -/
def gnServ (env : Env) (servlen : ℕ) (port : UInt16) (flags : BitVec 32) : Option CString :=
  if servlen = 0 then none
  else if hasFlag flags niNumericserv then some (snprintf servlen (decimal (env.ntohs port).toNat))
  else
    match env.getservbyport port (if hasFlag flags niDgram then some .udp else none) with
    | some (some name) => some (snprintf servlen name)
    | _ => some (snprintf servlen (decimal (env.ntohs port).toNat))

/-- `gn_ipv46`: `none` for `return(1)`. -/
def gnIpv46 (env : Env) (hostlen servlen : ℕ) (a : Addr) (port : UInt16) (flags : BitVec 32) :
    Option (Option CString × Option CString) :=
  (gnHost env hostlen a flags).map fun host => (host, gnServ env servlen port flags)

/-- `getnameinfo`. -/
def getnameinfo (env : Env) (sa : Sockaddr) (hostlen servlen : ℕ) (flags : BitVec 32) :
    Option (Option CString × Option CString) :=
  match sa with
  | .in4 port a => gnIpv46 env hostlen servlen (.in4 a) port flags
  | .in6 port a => gnIpv46 env hostlen servlen (.in6 a) port flags
  | .un path =>
    some (if hostlen = 0 then none else some (snprintf hostlen ['/', 'l', 'o', 'c', 'a', 'l']),
      if servlen = 0 then none else some (snprintf servlen path))

/-! ### Addresses as text -/

/-- The conversions between addresses and text. -/
structure Textual (env : Env) : Prop where
  /-- They are inverse to each other. -/
  pton_ntop4 : ∀ a, env.inetPton4 (env.inetNtop4 a) = some a
  pton_ntop6 : ∀ a, env.inetPton6 (env.inetNtop6 a) = some a
  /-- An IPv4 address starts with a digit. -/
  digit : ∀ a, startsWithDigit (env.inetNtop4 a) = true
  /-- An IPv6 address contains a colon and starts with a hex digit or a colon. -/
  colon : ∀ a, ':' ∈ env.inetNtop6 a
  hex : ∀ a c t, env.inetNtop6 a = c :: t → isXDigit c = true ∨ c = ':'
  /-- What contains a colon is not an IPv4 address. -/
  reject : ∀ s, ':' ∈ s → env.inetPton4 s = none

/-- The text of an address. -/
def textOf (env : Env) : Addr → CString
  | .in4 a => env.inetNtop4 a
  | .in6 a => env.inetNtop6 a
  | .un path => path

/-- The text of an address is recognised, in its own family. -/
theorem Textual.literal_textOf {env : Env} (h : Textual env) {a : Addr} (ha : a.isInet) :
    literal env (textOf env a) = some a := by
  cases a with
  | in4 a => simp [literal, literal4, textOf, h.digit, h.pton_ntop4]
  | in6 a =>
    have h4 : literal4 env (env.inetNtop6 a) = none := by
      simp [literal4, h.reject _ (h.colon a)]
    cases htext : env.inetNtop6 a with
    | nil =>
      have hcolon := h.colon a
      rw [htext] at hcolon
      cases hcolon
    | cons c t =>
      have hcolon : (c :: t).contains ':' = true := by
        rw [← htext]
        simpa using h.colon a
      have hpton : env.inetPton6 (c :: t) = some a := by
        rw [← htext]
        exact h.pton_ntop6 a
      have hfirst : (isXDigit c || c == ':') = true := by
        simpa using h.hex a c t htext
      rw [htext] at h4
      rw [textOf, htext, literal, h4]
      simp only [literal6, hfirst, hcolon, hpton, Bool.and_self, if_true, Option.map_some]
  | un path => cases ha

theorem Textual.textOf_ne_nil {env : Env} (h : Textual env) {a : Addr} (ha : a.isInet) :
    textOf env a ≠ [] := by
  cases a with
  | in4 a =>
    intro hnil
    have hdigit := h.digit a
    rw [textOf] at hnil
    rw [hnil] at hdigit
    cases hdigit
  | in6 a =>
    intro hnil
    have hcolon := h.colon a
    rw [textOf] at hnil
    rw [hnil] at hcolon
    cases hcolon
  | un path => cases ha

/-- What `getnameinfo` prints with both flags. -/
theorem getnameinfo_numeric {env : Env} {a : Addr} (ha : a.isInet) {port : UInt16}
    {host serv : CString}
    (h : getnameinfo env (a.sockaddr port) niMaxhost niMaxserv (niNumerichost ||| niNumericserv)
      = some (some host, some serv)) :
    host = textOf env a ∧ serv = decimal (env.ntohs port).toNat := by
  have hlen := length_decimal_port (env.ntohs port)
  have hserv : gnServ env niMaxserv port (niNumerichost ||| niNumericserv)
      = some (decimal (env.ntohs port).toNat) := by
    have hflag : hasFlag (niNumerichost ||| niNumericserv) niNumericserv = true := by decide
    rw [gnServ, if_neg (by decide), if_pos hflag, snprintf,
      List.take_of_length_le (by simp only [niMaxserv]; omega)]
  have hgn : gnIpv46 env niMaxhost niMaxserv a port (niNumerichost ||| niNumericserv)
      = some (some host, some serv) := by
    cases a with
    | un path => cases ha
    | _ => exact h
  rw [gnIpv46, hserv, Option.map_eq_some_iff] at hgn
  obtain ⟨host', hhost, heq⟩ := hgn
  simp only [Prod.mk.injEq, Option.some.injEq] at heq
  obtain ⟨rfl, rfl⟩ := heq
  refine ⟨?_, rfl⟩
  have hflag : hasFlag (niNumerichost ||| niNumericserv) niNumerichost = true := by decide
  rw [gnHost, if_neg (by decide), if_pos hflag] at hhost
  simp only [Option.map_eq_some_iff, Option.some.injEq, exists_eq_right, inetNtop,
    Option.filter_eq_some_iff] at hhost
  cases a with
  | un path => cases ha
  | _ => exact (Option.some.inj hhost.1).symm

/-! ### The way back -/

/-- A service that starts with a digit is not an absolute path. -/
theorem unixCase_of_digit {hostname : Option CString} {serv : CString}
    (hserv : startsWithDigit serv = true) : unixCase hostname (some serv) = false := by
  rcases serv with _ | ⟨c, cs⟩
  · cases hserv
  · by_cases hc : c = '/'
    · subst hc
      cases hserv
    · unfold unixCase
      split
      · next heq =>
        cases heq
        exact absurd rfl hc
      · exact Bool.and_false _

/-- Of the two searches made for an address given as text, one finds it and the other
one passes it over. -/
theorem addresses_of_literal {env : Env} {c : Char} {t : CString} {hints : Hints} {a : Addr}
    (hlit : literal env (c :: t) = some a) (hfam : hints.family = afUnspec) :
    addresses env (some (c :: t)) hints = [a] := by
  have hlookup (f : ℤ) :
      lookup env (some (c :: t)) hints f = if f = a.family then [a] else [] := by
    simp only [lookup, hostsOf, ite_self, resolved, hlit]
  have ha := isInet_of_literal hlit
  rw [addresses, if_pos hfam, hlookup, hlookup]
  cases a with
  | un path => cases ha
  | _ => rfl

/-- One entry between the phases. -/
theorem Looked.eq_singleton {hints : Hints} {wanted : Bool} {a : Addr} {ais : List Addrinfo}
    (h : Looked hints wanted [a] ais) :
    ∃ ai, ais = [ai] ∧ { ai with canonname := none } = aistruct hints a := by
  obtain ⟨first, rest, rfl, -⟩ := h.canon
  have hsame := h.same
  simp only [List.map_cons, List.map_nil, List.cons.injEq, List.map_eq_nil_iff] at hsame
  obtain ⟨hfirst, rfl⟩ := hsame
  exact ⟨first, rfl, hfirst⟩

/-- **An address and a port given as text**, with a socket type: the result is one
entry, for that address, with that port, unless memory is missing. -/
theorem getaddrinfoInet_literal_post {env : Env} {host serv : CString} {hints : Hints} {a : Addr}
    (hhost : host ≠ []) (hlit : literal env host = some a) (hfam : hints.family = afUnspec)
    (htype : hints.socktype ≠ 0) (hserv : startsWithDigit serv = true) :
    Post (getaddrinfoInet env (some host) (some serv) hints)
      (fun r => ∃ ai, r = [ai] ∧ ai.family = a.family ∧
        ai.addr = a.sockaddr (env.htons (.ofNat (atoi serv)))) env.MemFail := by
  obtain ⟨c, t, rfl⟩ := List.exists_cons_of_ne_nil hhost
  obtain ⟨d, u, rfl⟩ : ∃ d u, serv = d :: u := by
    cases serv with
    | nil => cases hserv
    | cons d u => exact ⟨d, u, rfl⟩
  have hne : searches (some (c :: t)) hints ≠ [] := by
    simp [searches, searchesFor, hfam, afUnspec, afInet, afInet6]
  have hall : ∀ s ∈ searches (some (c :: t)) hints, literal env s.host = some a := by
    simp [searches, searchesFor, hostsOf, hfam, afUnspec, afInet, afInet6, hlit]
  have htypes : servTypes env hints (d :: u)
      = [(hints.socktype, env.htons (.ofNat (atoi (d :: u))))] := by
    rw [servTypes, if_pos hserv, if_pos htype]
  unfold getaddrinfoInet
  rw [gaNsearch_eq, if_neg hne, pure_bind]
  refine post_bind (searchAll_literal_post (.inl hfam) _ _ none _ hall) ?_
  rintro _ rfl
  rw [flatMap_found env _ hints hne, addresses_of_literal hlit hfam]
  simp only [List.isEmpty_map, List.isEmpty_cons, Bool.false_eq_true, if_false]
  refine post_bind (giveCanon_post env _ hints _ none (List.cons_ne_nil a [])) ?_
  intro ais hlooked
  have hin : ∀ b ∈ [a], b.isInet := by
    intro b hb
    rw [List.mem_singleton.mp hb]
    exact isInet_of_literal hlit
  obtain ⟨ai, rfl, hai⟩ := hlooked.eq_singleton
  refine (gaServ_post env hints (d :: u) (List.cons_ne_nil ai [])
    fun ai hai => hlooked.fresh hin hai).mono ?_ ?_
  · rintro _ ⟨-, rfl⟩
    have hfamily : ai.family = a.family := congrArg Addrinfo.family hai
    have haddr : ai.addr = a.sockaddr 0 := congrArg Addrinfo.addr hai
    refine ⟨ai.setPort (env.htons (.ofNat (atoi (d :: u)))) hints.socktype, ?_, hfamily, ?_⟩
    · rw [htypes]
      rfl
    · rw [Addrinfo.setPort, haddr, Sockaddr.addr_sockaddr]
  · rintro e (he | ⟨hnil, -⟩)
    · exact he
    · rw [htypes] at hnil
      cases hnil

/-- **The numeric round trip.**  What `getnameinfo` prints with `NI_NUMERICHOST` and
`NI_NUMERICSERV` for an IPv4 or IPv6 socket address, `getaddrinfo` turns into one entry
with that socket address, when it is given no family and one of the two socket
types.  Memory is assumed to be there. -/
theorem numeric_round_trip (env : Env) (htext : Textual env) (halloc : ∀ n, env.alloc n = true)
    (a : Addr) (ha : a.isInet) (port : UInt16) (host serv : CString)
    (hname : getnameinfo env (a.sockaddr port) niMaxhost niMaxserv (niNumerichost ||| niNumericserv)
      = some (some host, some serv))
    (hints : Hints) (hflags : hasFlag hints.flags (~~~(aiPassive ||| aiCanonname)) = false)
    (hfam : hints.family = afUnspec)
    (htype : hints.socktype = sockStream ∨ hints.socktype = sockDgram) (n : ℕ) :
    ∃ ai n', getaddrinfo env (some host) (some serv) (some hints) n = .ok ([ai], n') ∧
      ai.family = a.family ∧ ai.addr = a.sockaddr port := by
  obtain ⟨rfl, rfl⟩ := getnameinfo_numeric ha hname
  have hne := htext.textOf_ne_nil ha
  have hdigit := startsWithDigit_decimal (env.ntohs port).toNat
  have hzero : hints.socktype ≠ 0 := by
    rcases htype with h | h <;> rw [h] <;> decide
  have hgiven : given (some (textOf env a)) = true := by
    simpa [given] using hne
  have hcheck : gaEcheck (some (textOf env a)) (some (decimal (env.ntohs port).toNat)) hints
      = none := by
    rw [gaEcheck, hflags, hgiven, if_neg (by simp), if_neg (by simp), if_pos hfam]
  have hport : env.htons (.ofNat (atoi (decimal (env.ntohs port).toNat))) = port := by
    rw [atoi_decimal, UInt16.ofNat_toNat]
    exact ntohs_htons env port
  have hmem : ∀ e, env.MemFail e → False := by
    rintro e ⟨-, m, hm⟩
    rw [halloc] at hm
    cases hm
  have hpost := (getaddrinfoInet_literal_post hne (htext.literal_textOf ha) hfam hzero
    hdigit).mono (fun _ h => h) hmem
  obtain ⟨⟨r, n'⟩, hrun, ai, hr, hfamily, haddr⟩ := hpost.exists_ok n
  simp only at hr
  subst hr
  refine ⟨ai, n', ?_, hfamily, by rw [haddr, hport]⟩
  rw [getaddrinfo, Option.getD_some, hcheck]
  simp only
  rw [unixCase_of_digit hdigit, if_neg (by simp)]
  exact hrun

/-- A system that writes an address as one number, an IPv6 one behind two colons; it
writes the loopback address as `"::1"`. -/
def plainEnv : Env :=
  { sampleEnv with
    inetNtop4 := fun a => decimal a.toNat
    inetNtop6 := fun a => ':' :: ':' :: decimal a.toNat
    inetPton4 := fun s => if ':' ∈ s then none else some (.ofNat 32 (atoi s))
    inetPton6 := fun s => some (.ofNat 128 (atoi (s.drop 2))) }

theorem plainEnv_textual : Textual plainEnv where
  pton_ntop4 := by
    intro a
    have hcolon : ':' ∉ decimal a.toNat := fun h => absurd (isDigit_of_mem_decimal h) (by decide)
    simp [plainEnv, hcolon]
  pton_ntop6 := by
    intro a
    simp [plainEnv]
  digit := fun a => startsWithDigit_decimal a.toNat
  colon := fun a => List.mem_cons_self
  hex := by
    intro a c t h
    exact .inr (List.cons.inj h).1.symm
  reject := by
    intro s hs
    simp [plainEnv, hs]

/-- Port `80` of the IPv6 loopback address. -/
theorem numeric_round_trip_loopback :
    ∃ ai n', getaddrinfo plainEnv (some [':', ':', '1']) (some ['8', '0'])
        (some { socktype := sockDgram }) 0 = .ok ([ai], n') ∧
      ai.family = afInet6 ∧ ai.addr = .in6 (swapBytes 80) 1 :=
  numeric_round_trip plainEnv plainEnv_textual (fun _ => rfl) (.in6 1) rfl (swapBytes 80) _ _
    (by decide) { socktype := sockDgram } (by decide) rfl (.inr rfl) 0

end TcpIp.Gai
