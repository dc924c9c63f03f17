import Mathlib.Data.List.Basic
import TcpIp.Gai.Getaddrinfo

/-!
# The two phases of `getaddrinfo`

`getaddrinfo` builds its list in two phases: the lookups make one entry for each
address, and `ga_serv` then goes over the list, once for each socket type, filling
in ports and cloning entries.  This module says what each phase leaves behind.

## Main definitions

* `found` — the addresses a search finds.
* `servTypes` — the socket types of a service, with their ports.
* `spread` — what becomes of one entry in the service phase.

## Main results

* `searchAll_post` — the lookup phase makes one entry for each address.
* `gaServ_post` — the service phase spreads every entry over the socket types.
-/

namespace TcpIp.Gai

open Fallible

/-! ### Errors -/

/-- An error returned to the caller. -/
def Returned (e : Exit) : Prop := ∃ c, e = .eai c

/-- An error returned from behind `ga_echeck`, where the flags have been found to be good. -/
def Behind (e : Exit) : Prop := ∃ c, e = .eai c ∧ c ≠ .badflags

theorem Behind.returned {e : Exit} (h : Behind e) : Returned e := h.imp fun _ he => he.1

theorem behind_of_memFail {env : Env} (e : Exit) (h : env.MemFail e) : Behind e :=
  ⟨_, h.1, by decide⟩

theorem HErrno.eai_ne_badflags (e : HErrno) : e.eai ≠ .badflags := by
  cases e <;> simp [HErrno.eai]

/-! ### The service phase -/

/-- The socket type of a protocol under which a service name is known, with the port. -/
def protoTypes (env : Env) (hints : Hints) (serv : CString) (proto : Proto) (t : ℤ) :
    List (ℤ × UInt16) :=
  if hints.socktype = 0 ∨ hints.socktype = t then
    (env.getservbyname serv proto).toList.map (t, ·)
  else []

/-- The socket types of a service, each with its port in network byte order. -/
def servTypes (env : Env) (hints : Hints) (serv : CString) : List (ℤ × UInt16) :=
  if startsWithDigit serv then
    let port := env.htons (.ofNat (atoi serv))
    if hints.socktype ≠ 0 then [(hints.socktype, port)]
    else [(sockStream, port), (sockDgram, port)]
  else protoTypes env hints serv .tcp sockStream ++ protoTypes env hints serv .udp sockDgram

/-- An entry for each socket type: the first one is the entry itself, the others are
clones. -/
def spread (ai : Addrinfo) : List (ℤ × UInt16) → List Addrinfo
  | [] => [ai]
  | (t, port) :: ts =>
    ai.setPort port t ::
      ts.map fun p => { ai with flags := 0, canonname := none }.setPort p.2 p.1

/-- An entry as the lookup phase leaves it. -/
structure Fresh (hints : Hints) (ai : Addrinfo) : Prop where
  flags : ai.flags = if hints.socktype = 0 then aiClone else 0
  socktype : ai.socktype = hints.socktype
  hasPort : ai.hasPort = true

section Passes

variable {hints : Hints} {ais : List Addrinfo} (hais : ∀ ai ∈ ais, Fresh hints ai)
include hais

/-- The first pass fills in the entries themselves. -/
theorem flatMap_portNode {t : ℤ} (ht : hints.socktype = 0 ∨ hints.socktype = t) (port : UInt16) :
    ais.flatMap (portNode port t) = ais.flatMap (spread · [(t, port)]) := by
  refine List.flatMap_congr fun ai hai => ?_
  have h := hais ai hai
  by_cases hzero : hints.socktype = 0
  · simp [portNode, spread, h.flags, h.socktype, hzero, hasFlag, aiClone]
  · obtain rfl := ht.resolve_left hzero
    simp [portNode, spread, h.flags, h.socktype, hzero, hasFlag]

theorem countP_portFound {t : ℤ} (ht : hints.socktype = 0 ∨ hints.socktype = t) :
    ais.countP (portFound t) = ais.length := by
  rw [List.countP_eq_length]
  intro ai hai
  have h := hais ai hai
  by_cases hzero : hints.socktype = 0
  · simp [portFound, h.flags, h.hasPort, hzero, hasFlag, aiClone]
  · obtain rfl := ht.resolve_left hzero
    simp [portFound, h.socktype, h.hasPort]

/-- The second pass clones them. -/
theorem flatMap_portNode_spread (hzero : hints.socktype = 0) {t u : ℤ} (ht : t ≠ 0)
    (port port' : UInt16) :
    (ais.flatMap (spread · [(t, port)])).flatMap (portNode port' u)
      = ais.flatMap (spread · [(t, port), (u, port')]) := by
  rw [List.flatMap_assoc]
  refine List.flatMap_congr fun ai hai => ?_
  have h := hais ai hai
  simp [portNode, spread, Addrinfo.setPort, h.flags, hzero, ht, hasFlag, aiClone]

/-- One pass over fresh entries. -/
theorem gaPort_first_post (env : Env) {t : ℤ} (ht : hints.socktype = 0 ∨ hints.socktype = t)
    (port : UInt16) :
    Post (gaPort env port t ais) (· = (ais.flatMap (spread · [(t, port)]), ais.length))
      env.MemFail := by
  rw [← flatMap_portNode hais ht, ← countP_portFound hais ht]
  exact gaPort_post env port t ais

/-- A second pass. -/
theorem gaPort_second_post (env : Env) (hzero : hints.socktype = 0) {t : ℤ} (ht : t ≠ 0)
    (u : ℤ) (port port' : UInt16) :
    Post (gaPort env port' u (ais.flatMap (spread · [(t, port)])))
      (fun r => r.1 = ais.flatMap (spread · [(t, port), (u, port')])) env.MemFail := by
  rw [← flatMap_portNode_spread hais hzero ht]
  exact (gaPort_post env port' u _).mono (fun r hr => by rw [hr]) (fun _ he => he)

end Passes

@[simp] theorem flatMap_spread_nil (ais : List Addrinfo) : ais.flatMap (spread · []) = ais := by
  simp [spread]

section Names

variable {env : Env} {hints : Hints} {serv : CString} {proto : Proto} {t : ℤ}
  {ais : List Addrinfo}

/-- A name that is not looked up for the protocol, or not known. -/
theorem gaServname_of_nil (h : protoTypes env hints serv proto t = []) :
    gaServname env hints serv proto t ais = pure (ais, 0) := by
  unfold protoTypes at h
  unfold gaServname
  split
  · next hc =>
    rw [if_pos hc, List.map_eq_nil_iff, Option.toList_eq_nil_iff] at h
    rw [h]
  · rfl

/-- A name that is known. -/
theorem gaServname_of_cons {p : ℤ × UInt16} {ps : List (ℤ × UInt16)}
    (h : protoTypes env hints serv proto t = p :: ps) :
    ps = [] ∧ p.1 = t ∧ (hints.socktype = 0 ∨ hints.socktype = t) ∧
      ∀ ais, gaServname env hints serv proto t ais = gaPort env p.2 t ais := by
  unfold protoTypes at h
  split at h
  · next hc =>
    cases hserv : env.getservbyname serv proto with
    | none => simp [hserv] at h
    | some port =>
      simp only [hserv, Option.toList_some, List.map_cons, List.map_nil, List.cons.injEq] at h
      obtain ⟨rfl, rfl⟩ := h
      exact ⟨rfl, rfl, hc, fun ais => by rw [gaServname, if_pos hc, hserv]⟩
  · cases h

/-- A name looked up for fresh entries. -/
theorem gaServname_first_post (hne : ais ≠ []) (hais : ∀ ai ∈ ais, Fresh hints ai) :
    Post (gaServname env hints serv proto t ais)
      (fun r => r.1 = ais.flatMap (spread · (protoTypes env hints serv proto t)) ∧
        (r.2 = 0 ↔ protoTypes env hints serv proto t = [])) env.MemFail := by
  have hpos : 0 < ais.length := List.length_pos_iff.mpr hne
  cases h : protoTypes env hints serv proto t with
  | nil =>
    rw [gaServname_of_nil h]
    exact post_pure (by simp)
  | cons p ps =>
    obtain ⟨rfl, rfl, hc, heq⟩ := gaServname_of_cons h
    rw [heq]
    refine (gaPort_first_post hais env hc _).mono ?_ fun _ he => he
    rintro _ rfl
    exact ⟨rfl, by simp only [reduceCtorEq, iff_false]; omega⟩

/-- The UDP part, for a name that is known under TCP. -/
theorem gaServname_second_post {p : ℤ × UInt16} {ps : List (ℤ × UInt16)}
    (htcp : protoTypes env hints serv .tcp sockStream = p :: ps)
    (hais : ∀ ai ∈ ais, Fresh hints ai) :
    Post (gaServname env hints serv .udp sockDgram (ais.flatMap (spread · (p :: ps))))
      (fun r => r.1 = ais.flatMap
        (spread · (p :: ps ++ protoTypes env hints serv .udp sockDgram))) env.MemFail := by
  obtain ⟨rfl, hp, hc, -⟩ := gaServname_of_cons htcp
  cases hudp : protoTypes env hints serv .udp sockDgram with
  | nil =>
    rw [gaServname_of_nil hudp]
    exact post_pure rfl
  | cons q qs =>
    obtain ⟨rfl, hq, hc', heq⟩ := gaServname_of_cons hudp
    -- both protocols were asked for, so no socket type is given
    have hzero : hints.socktype = 0 := by
      have hdiff : sockStream ≠ sockDgram := by decide
      omega
    rw [heq]
    obtain ⟨t, port⟩ := p
    obtain ⟨u, port'⟩ := q
    simp only at hp hq
    subst hp hq
    exact gaPort_second_post hais env hzero (by decide) _ port port'

end Names

/-- The ports are filled in for the socket types of the service; `nfound` tells
whether there are any. -/
theorem gaServPorts_post (env : Env) (hints : Hints) (serv : CString) {ais : List Addrinfo}
    (hne : ais ≠ []) (hais : ∀ ai ∈ ais, Fresh hints ai) :
    Post (gaServPorts env ais hints serv)
      (fun r => r.1 = ais.flatMap (spread · (servTypes env hints serv)) ∧
        (r.2 = 0 ↔ servTypes env hints serv = [])) env.MemFail := by
  have hpos : 0 < ais.length := List.length_pos_iff.mpr hne
  unfold gaServPorts servTypes
  by_cases hdigit : startsWithDigit serv
  · rw [if_pos hdigit, if_pos hdigit]
    by_cases hzero : hints.socktype = 0
    · -- a port for both types: two passes
      simp only [hzero, ne_eq, not_true_eq_false, if_false]
      refine post_bind (gaPort_first_post hais env (.inl hzero) _) ?_
      rintro _ rfl
      refine post_bind (gaPort_second_post hais env hzero (by decide) _ _ _) ?_
      rintro ⟨ais', n₂⟩ hais'
      exact post_pure ⟨hais', by simp only [reduceCtorEq, iff_false]; omega⟩
    · simp only [ne_eq, hzero, not_false_eq_true, if_true]
      refine (gaPort_first_post hais env (.inr rfl) _).mono ?_ fun _ he => he
      rintro _ rfl
      exact ⟨rfl, by simp only [reduceCtorEq, iff_false]; omega⟩
  · rw [if_neg hdigit, if_neg hdigit]
    refine post_bind (gaServname_first_post hne hais) ?_
    rintro ⟨ais₁, n₁⟩ ⟨hais₁, hn₁⟩
    simp only at hais₁ hn₁
    subst hais₁
    cases htcp : protoTypes env hints serv .tcp sockStream with
    | nil =>
      rw [flatMap_spread_nil]
      refine post_bind (gaServname_first_post hne hais) ?_
      rintro ⟨ais₂, n₂⟩ ⟨hais₂, hn₂⟩
      have hzero : n₁ = 0 := hn₁.mpr htcp
      exact post_pure ⟨hais₂, by simpa [hzero] using hn₂⟩
    | cons p ps =>
      refine post_bind (gaServname_second_post htcp hais) ?_
      rintro ⟨ais₂, n₂⟩ hais₂
      have hnz : n₁ ≠ 0 := fun h => by rw [hn₁.mp h] at htcp; cases htcp
      exact post_pure ⟨hais₂, by simp only [List.cons_append, reduceCtorEq, iff_false]; omega⟩

/-- **The service phase spreads every entry over the socket types of the service**,
and fails if there are none. -/
theorem gaServ_post (env : Env) (hints : Hints) (serv : CString) {ais : List Addrinfo}
    (hne : ais ≠ []) (hais : ∀ ai ∈ ais, Fresh hints ai) :
    Post (gaServ env ais hints serv)
      (fun r => servTypes env hints serv ≠ [] ∧
        r = ais.flatMap (spread · (servTypes env hints serv)))
      (fun e => env.MemFail e ∨ servTypes env hints serv = [] ∧ Behind e) := by
  unfold gaServ
  refine post_bind ((gaServPorts_post env hints serv hne hais).mono (fun _ h => h)
    fun _ he => .inl he) ?_
  rintro ⟨ais', nfound⟩ ⟨hais', hfound⟩
  simp only at hais' hfound ⊢
  by_cases hzero : nfound = 0
  · rw [if_pos hzero]
    refine post_throw (.inr ⟨hfound.mp hzero, _, rfl, ?_⟩)
    split <;> decide
  · rw [if_neg hzero]
    exact post_pure ⟨fun h => hzero (hfound.mpr h), hais'⟩

/-! ### The lookup phase -/

/-- The addresses found for a name in the family `f`, given the resolver's answer:
a name that is an address by itself stands for that address, in its own family. -/
def resolved (env : Env) (host : CString) (f : ℤ) (answer : Except HErrno Hostent) : List Addr :=
  match literal env host with
  | some a => if f = a.family then [a] else []
  | none =>
    match answer with
    | .error _ => []
    | .ok h => h.addrList

/-- The addresses a search finds. -/
def found (env : Env) (nsearch : ℕ) (s : Search) : List Addr :=
  resolved env s.host s.family (ask env nsearch s)

theorem isInet_of_literal {env : Env} {host : CString} {a : Addr} (h : literal env host = some a) :
    a.isInet := by
  unfold literal at h
  split at h
  · cases h
    rfl
  · obtain ⟨b, -, rfl⟩ := Option.map_eq_some_iff.mp h
    rfl

theorem isInet_of_mem_addrList {h : Hostent} {a : Addr} (ha : a ∈ h.addrList) : a.isInet := by
  rcases h with ⟨name, as | as⟩
  · obtain ⟨b, -, rfl⟩ := List.mem_map.mp ha
    rfl
  · obtain ⟨b, -, rfl⟩ := List.mem_map.mp ha
    rfl

theorem mem_resolved {env : Env} {host : CString} {f : ℤ} {answer : Except HErrno Hostent}
    {a : Addr} (ha : a ∈ resolved env host f answer) :
    (literal env host = some a ∧ f = a.family) ∨ ∃ h, answer = .ok h ∧ a ∈ h.addrList := by
  unfold resolved at ha
  split at ha
  · next b hb =>
    split at ha
    · next hf =>
      rw [List.mem_singleton] at ha
      subst ha
      exact .inl ⟨hb, hf⟩
    · cases ha
  · split at ha
    · cases ha
    · next h => exact .inr ⟨h, rfl, ha⟩

theorem isInet_of_mem_resolved {env : Env} {host : CString} {f : ℤ}
    {answer : Except HErrno Hostent} {a : Addr} (ha : a ∈ resolved env host f answer) :
    a.isInet := by
  rcases mem_resolved ha with ⟨hlit, -⟩ | ⟨h, -, hmem⟩
  · exact isInet_of_literal hlit
  · exact isInet_of_mem_addrList hmem

/-- A string that stands for an address by itself. -/
theorem searchHost_literal_post {env : Env} {hints : Hints} {s : Search} {a : Addr}
    (ha : literal env s.host = some a) (hfam : hints.family = afUnspec ∨ hints.family = a.family)
    (hostname : Option CString) (nsearch : ℕ) (canon : Option CString) :
    Post (searchHost env hostname hints nsearch s canon)
      (· = ((found env nsearch s).map (aistruct hints), canon)) env.MemFail := by
  unfold searchHost found resolved
  rw [ha]
  simp only
  rw [if_neg (by rintro ⟨h₁, h₂⟩; exact hfam.elim h₁ h₂)]
  by_cases hs : s.family = a.family
  · rw [if_neg (not_not_intro hs), if_pos hs]
    refine post_bind (gaAistruct_post env hints (isInet_of_literal ha)) ?_
    rintro _ rfl
    exact post_pure rfl
  · rw [if_pos hs, if_neg hs]
    exact post_pure rfl

theorem saveCanon_post (env : Env) (hostname : Option CString) (hints : Hints)
    (canon : Option CString) (name : CString) :
    Post (saveCanon env hostname hints canon name) (fun _ => True) Behind := by
  unfold saveCanon
  split
  · exact post_bind ((allocate_post env).mono (fun _ h => h) behind_of_memFail)
      fun _ _ => post_pure trivial
  · exact post_pure trivial

/-- A name that the resolver is asked for. -/
theorem searchHost_name_post {env : Env} {s : Search} (hlit : literal env s.host = none)
    (hostname : Option CString) (hints : Hints) (nsearch : ℕ) (canon : Option CString) :
    Post (searchHost env hostname hints nsearch s canon)
      (fun r => r.1 = (found env nsearch s).map (aistruct hints) ∧
        (hints.family = afUnspec ∨ ∀ a ∈ found env nsearch s, a.family = hints.family))
      Behind := by
  unfold searchHost found resolved
  rw [hlit]
  cases hask : ask env nsearch s with
  | error e =>
    simp only
    split
    · exact post_pure ⟨rfl, .inr fun a ha => by cases ha⟩
    · exact post_throw ⟨_, rfl, e.eai_ne_badflags⟩
  | ok h =>
    simp only
    by_cases hfam : hints.family = afUnspec ∨ hints.family = h.addrtype
    · rw [if_neg (by rintro ⟨h₁, h₂⟩; exact hfam.elim h₁ h₂)]
      refine post_bind (saveCanon_post env hostname hints canon h.name) fun canon' _ => ?_
      refine post_bind ((post_mapM h.addrList fun a ha =>
        gaAistruct_post env hints (isInet_of_mem_addrList ha)).mono (fun _ h => h)
          behind_of_memFail) ?_
      rintro _ rfl
      refine post_pure ⟨rfl, hfam.imp_right fun heq a ha => ?_⟩
      rw [Hostent.family_of_mem ha, heq]
    · rw [if_pos (not_or.mp hfam)]
      exact post_throw ⟨_, rfl, by decide⟩

/-- A search makes an entry for each address it finds; if a family is given, all are
of that family. -/
theorem searchHost_post (env : Env) (hostname : Option CString) (hints : Hints) (nsearch : ℕ)
    (s : Search) (canon : Option CString) :
    Post (searchHost env hostname hints nsearch s canon)
      (fun r => r.1 = (found env nsearch s).map (aistruct hints) ∧
        (hints.family = afUnspec ∨ ∀ a ∈ found env nsearch s, a.family = hints.family))
      Behind := by
  cases hlit : literal env s.host with
  | none => exact searchHost_name_post hlit hostname hints nsearch canon
  | some a =>
    by_cases hfam : hints.family = afUnspec ∨ hints.family = a.family
    · refine (searchHost_literal_post hlit hfam hostname nsearch canon).mono ?_ behind_of_memFail
      rintro _ rfl
      refine ⟨rfl, hfam.imp_right fun h b hb => ?_⟩
      simp only [found, resolved, hlit] at hb
      split at hb
      · rw [List.mem_singleton.mp hb, h]
      · cases hb
    · unfold searchHost
      rw [hlit]
      simp only
      rw [if_pos (not_or.mp hfam)]
      exact post_throw ⟨_, rfl, by decide⟩

/-- **The lookup phase makes one entry for each address**, in the order of the
searches. -/
theorem searchAll_post (env : Env) (hostname : Option CString) (hints : Hints) (nsearch : ℕ) :
    ∀ (ss : List Search) (canon : Option CString),
    Post (searchAll env hostname hints nsearch ss canon)
      (fun r => r.1 = (ss.flatMap (found env nsearch)).map (aistruct hints) ∧
        (hints.family = afUnspec ∨
          ∀ a ∈ ss.flatMap (found env nsearch), a.family = hints.family))
      Behind := by
  intro ss
  induction ss with
  | nil => intro canon; exact post_pure ⟨rfl, .inr fun a ha => by cases ha⟩
  | cons s ss ih =>
    intro canon
    unfold searchAll
    refine post_bind (searchHost_post env hostname hints nsearch s canon) ?_
    rintro ⟨ais, canon'⟩ ⟨hais, hfam⟩
    refine post_bind (ih canon') ?_
    rintro ⟨more, canon''⟩ ⟨hmore, hfam'⟩
    simp only at hais hmore
    subst hais hmore
    refine post_pure ⟨by simp, ?_⟩
    rcases hfam with hfam | hfam
    · exact .inl hfam
    · refine hfam'.imp_right fun hfam' a ha => ?_
      rw [List.flatMap_cons, List.mem_append] at ha
      exact ha.elim (hfam a) (hfam' a)

/-- The same for names that all stand for one address: only memory can be missing. -/
theorem searchAll_literal_post {env : Env} {hints : Hints} {a : Addr}
    (hfam : hints.family = afUnspec ∨ hints.family = a.family) (hostname : Option CString)
    (nsearch : ℕ) (canon : Option CString) : ∀ (ss : List Search),
    (∀ s ∈ ss, literal env s.host = some a) →
    Post (searchAll env hostname hints nsearch ss canon)
      (· = ((ss.flatMap (found env nsearch)).map (aistruct hints), canon)) env.MemFail := by
  intro ss
  induction ss with
  | nil => intro _; exact post_pure rfl
  | cons s ss ih =>
    intro hss
    unfold searchAll
    refine post_bind (searchHost_literal_post (hss s List.mem_cons_self) hfam hostname nsearch
      canon) ?_
    rintro _ rfl
    refine post_bind (ih fun s hs => hss s (List.mem_cons_of_mem _ hs)) ?_
    rintro _ rfl
    exact post_pure (by simp)

end TcpIp.Gai
