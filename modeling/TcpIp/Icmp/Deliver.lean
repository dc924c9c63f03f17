import TcpIp.Icmp.Daemon

/-!
# Who gets an ICMP error

The daemon is to pass an error on to a client only if that client has passed a UDP socket
of the family of the error that is bound to the port which the error quotes.

What an entry of `client[]` says about its client is an invariant of the runs in which
every new connection gets an entry that nobody has registered in before.  A client that
gets a used entry has also got the family and the port that its predecessor left there.

## Main definitions

* `Registered` — an error has gone to a client that has asked for it.
* `Careful` — the condition on a step under which that is so.

## Main results

* `registered_of_careful` — **in every run whose steps are careful** every error passed
  on has been asked for by the client that got it.
* `stale_entry` — a run in which a client that has asked for nothing gets the error that
  its predecessor in `client[]` had asked for.
-/

namespace TcpIp.Icmp.Daemon

open Bytes Run Table
open Gai (afInet afInet6)
open Select (Fd fdSetsize)

/-! ### Who has asked for an error -/

/-- The client that got the error has passed a UDP socket of the family of the message
that is bound to the source port which the message quotes. -/
def Registered (passed : ConnId → List Passed) (d : Delivery) : Prop :=
  ∃ p ∈ passed d.conn, p.udp = true ∧ p.family = d.ver.family ∧
    (quotedPort d.ver d.msg).map Int.ofNat = some p.port

/-- An entry from which errors may be passed on. -/
def Client.Noted (c : Client) : Prop := (c.family = afInet ∨ c.family = afInet6) ∧ 0 ≤ c.lport

instance (c : Client) : Decidable c.Noted := inferInstanceAs (Decidable (_ ∧ _))

/-- **The condition on a step**: a new connection gets an entry in which no family and
port have been left, a descriptor of one of the two families is that of a UDP socket, and
a message that quotes a UDP datagram is not cut off in front of its source port. -/
def Careful (s : Sys) : Act → Prop
  | .accept _ => ∀ i ∈ s.free, ¬(s.client i).Noted
  | .recv (.desc d) _ => ∀ n ∈ d.name, n.1 = afInet ∨ n.1 = afInet6 → d.udp = true
  | .icmp v msg _ _ => Quotes v msg → v.udp msg + 2 ≤ msg.length
  | _ => True

instance (s : Sys) : ∀ a, Decidable (Careful s a)
  | .accept _ => inferInstanceAs (Decidable (∀ i ∈ s.free, ¬(s.client i).Noted))
  | .recv (.desc d) _ =>
    inferInstanceAs (Decidable (∀ n ∈ d.name, n.1 = afInet ∨ n.1 = afInet6 → d.udp = true))
  | .icmp _ _ _ _ => inferInstanceAs (Decidable (_ → _))
  | .recv .eof _ | .recv .data _ | .select _ | .tick | .fail => isTrue trivial

/-! ### What a message tells -/

section Message

variable {v : Ver} {buf msg rest : List UInt8} {n sport : ℕ} {err : IcmpdErr}

/-- What has been tested before the source port is read. -/
theorem look_eq_pass (h : look v buf n = .pass sport err) :
    v.protoAt buf < n ∧ isError v (icmpType buf (v.icmp buf)) = true ∧ v.proto buf = ipprotoUdp ∧
      sport = uhSport buf (v.udp buf) := by
  cases v with
  | v4 =>
    simp only [look, readableV4] at h
    split at h
    · cases h
    split at h
    · next herr =>
      split at h
      · cases h
      split at h
      · next hlong hudp =>
        injection h with hsport _
        refine ⟨?_, herr, hudp, hsport.symm⟩
        simp only [Ver.protoAt, Ver.ip, Ver.icmp]
        omega
      · cases h
    · cases h
  | v6 =>
    simp only [look, readableV6] at h
    split at h
    · cases h
    split at h
    · next herr =>
      split at h
      · cases h
      split at h
      · next hlong hudp =>
        injection h with hsport _
        refine ⟨?_, herr, hudp, hsport.symm⟩
        simp only [Ver.protoAt, Ver.ip, Ver.icmp]
        omega
      · cases h
    · cases h

/-- The port that is compared is the one the message quotes, if the message has it. -/
theorem quotedPort_of_look (h : look v (msg ++ rest) msg.length = .pass sport err)
    (hwhole : Quotes v msg → v.udp msg + 2 ≤ msg.length) : quotedPort v msg = some sport := by
  obtain ⟨hlong, herr, hudp, rfl⟩ := look_eq_pass h
  have hpos : 0 < msg.length := by omega
  rw [Ver.protoAt_append hpos] at hlong
  have hip := v.ip_lt_protoAt msg
  have hicmp : v.icmp msg < msg.length := by
    have : v.icmp msg < v.ip msg := by simp [Ver.ip]
    omega
  have hquotes : Quotes v msg := by
    rw [Ver.icmp_append hpos, icmpType, byte_append hicmp] at herr
    rw [Ver.proto_append hlong] at hudp
    exact ⟨herr, hudp⟩
  have hin := hwhole hquotes
  rw [quotedPort, if_pos ⟨hquotes, hin⟩, Ver.udp_append (by omega), uhSport, uhSport,
    get_append hin]

end Message

/-! ### The entries -/

/-- What the entry of the connection `c` says is what `c` has passed. -/
def Backed (passed : ConnId → List Passed) (c : ConnId) (cl : Client) : Prop :=
  cl.Noted → ∃ p ∈ passed c, p.udp = true ∧ p.family = cl.family ∧ p.port = cl.lport

section Mono

variable {passed passed' : ConnId → List Passed} (hsub : ∀ c, passed c ⊆ passed' c)
include hsub

theorem Backed.mono {c : ConnId} {cl : Client} (h : Backed passed c cl) :
    Backed passed' c cl := by
  intro hn
  obtain ⟨p, hp, hrest⟩ := h hn
  exact ⟨p, hsub c hp, hrest⟩

theorem Registered.mono {d : Delivery} (h : Registered passed d) : Registered passed' d := by
  obtain ⟨p, hp, hrest⟩ := h
  exact ⟨p, hsub d.conn hp, hrest⟩

end Mono

structure Inv (s : Sys) : Prop where
  /-- An entry in use belongs to the connection behind its descriptor. -/
  owned : ∀ i fd, (s.client i).connfd = some fd →
    ∃ c, s.conn fd = some c ∧ Backed s.passed c (s.client i)
  distinct : ∀ i j fd, (s.client i).connfd = some fd → (s.client j).connfd = some fd → i = j
  registered : ∀ d ∈ s.written, Registered s.passed d

theorem inv_init (fd4 fd6 listenfd : Fd) : Inv (init fd4 fd6 listenfd) where
  owned := by intro i fd h; cases h
  distinct := by intro i j fd h; cases h
  registered := by intro d h; cases h

section Inv

variable {s : Sys} {i : ℕ} {fd connfd unixfd : Fd}

theorem Inv.exit (h : Inv s) : Inv s.exit := { h with }

theorem Inv.ret (h : Inv s) (pc : Pc) : Inv (s.ret pc) := { h with }

/-- An entry is taken in which nothing has been left. -/
theorem Inv.enter (h : Inv s) (hnew : s.conn connfd = none) (hnot : ¬(s.client i).Noted) :
    Inv (s.enter i connfd) where
  owned := by
    intro j fd hj
    rcases eq_or_ne j i with rfl | hji
    · simp only [Sys.enter, Function.update_self, Option.some.injEq] at hj ⊢
      subst hj
      exact ⟨s.conns, Function.update_self .., fun hn => absurd hn hnot⟩
    · simp only [Sys.enter, Function.update_of_ne hji] at hj ⊢
      obtain ⟨c, hc, hb⟩ := h.owned j fd hj
      have hne : fd ≠ connfd := by
        rintro rfl
        rw [hnew] at hc
        cases hc
      exact ⟨c, by rw [Function.update_of_ne hne]; exact hc, hb⟩
  distinct := by
    have hother : ∀ k, k ≠ i → (s.client k).connfd ≠ some connfd := by
      intro k _ hk
      obtain ⟨c, hc, _⟩ := h.owned k connfd hk
      rw [hnew] at hc
      cases hc
    intro j k fd hj hk
    simp only [Sys.enter] at hj hk
    rcases eq_or_ne j i with rfl | hji
    · rcases eq_or_ne k j with rfl | hkj
      · rfl
      · simp only [Function.update_self, Function.update_of_ne hkj, Option.some.injEq] at hj hk
        exact absurd (hj ▸ hk) (hother k hkj)
    · rcases eq_or_ne k i with rfl | hki
      · simp only [Function.update_self, Function.update_of_ne hji, Option.some.injEq] at hj hk
        exact absurd (hk ▸ hj) (hother j hji)
      · simp only [Function.update_of_ne hji, Function.update_of_ne hki] at hj hk
        exact h.distinct j k fd hj hk
  registered := h.registered

/-- An entry is given up, whatever is left in it. -/
theorem Inv.release (h : Inv s) (hi : (s.client i).connfd = some unixfd) {cl : Client}
    (hcl : cl.connfd = none) {allset : Fd → Bool} :
    Inv { s with
      conn := Function.update s.conn unixfd none
      allset
      client := Function.update s.client i cl } where
  owned := by
    intro j fd hj
    rcases eq_or_ne j i with rfl | hji
    · simp only [Function.update_self, hcl] at hj
      cases hj
    · simp only [Function.update_of_ne hji] at hj ⊢
      have hne : fd ≠ unixfd := by
        rintro rfl
        exact hji (h.distinct j i fd hj hi)
      rw [Function.update_of_ne hne]
      exact h.owned j fd hj
  distinct := by
    have hold : ∀ {k fd}, (Function.update s.client i cl k).connfd = some fd →
        (s.client k).connfd = some fd := by
      intro k fd hk
      rcases eq_or_ne k i with rfl | hki
      · rw [Function.update_self, hcl] at hk
        cases hk
      · rwa [Function.update_of_ne hki] at hk
    intro j k fd hj hk
    exact h.distinct j k fd (hold hj) (hold hk)
  registered := h.registered

/-- A socket is accepted from a client. -/
theorem Inv.accepted (h : Inv s) (hi : (s.client i).connfd = some unixfd) {p : Passed}
    (hudp : p.family = afInet ∨ p.family = afInet6 → p.udp = true) :
    Inv ((s.note i p.family p.port).accepted unixfd p) := by
  obtain ⟨c, hc, -⟩ := h.owned i unixfd hi
  have hpassed : (s.note i p.family p.port).accepted unixfd p =
      { s.note i p.family p.port with
        passed := Function.update s.passed c (p :: s.passed c) } := by
    simp only [Sys.accepted, Sys.note, hc]
  have hsub : ∀ b, s.passed b ⊆ Function.update s.passed c (p :: s.passed c) b := by
    intro b q hq
    rcases eq_or_ne b c with rfl | hne
    · rw [Function.update_self]
      exact List.mem_cons_of_mem p hq
    · rwa [Function.update_of_ne hne]
  have hconnfd : ∀ j, ((s.note i p.family p.port).client j).connfd = (s.client j).connfd := by
    intro j
    rcases eq_or_ne j i with rfl | hji
    · simp only [Sys.note, Function.update_self]
    · simp only [Sys.note, Function.update_of_ne hji]
  rw [hpassed]
  refine ⟨?_, ?_, ?_⟩
  · intro j fd hj
    rw [hconnfd] at hj
    rcases eq_or_ne j i with rfl | hji
    · rw [hi, Option.some.injEq] at hj
      subst hj
      refine ⟨c, hc, fun hn => ⟨p, ?_, ?_, ?_, ?_⟩⟩
      · simp only [Function.update_self]
        exact List.mem_cons_self
      · simp only [Client.Noted, Sys.note, Function.update_self] at hn
        exact hudp hn.1
      · simp only [Sys.note, Function.update_self]
      · simp only [Sys.note, Function.update_self]
    · obtain ⟨b, hb, hback⟩ := h.owned j fd hj
      simp only [Sys.note, Function.update_of_ne hji]
      exact ⟨b, hb, hback.mono hsub⟩
  · intro j k fd hj hk
    rw [hconnfd] at hj hk
    exact h.distinct j k fd hj hk
  · exact fun d hd => (h.registered d hd).mono hsub

/-- A descriptor has been received. -/
theorem Inv.desc (h : Inv s) (hi : (s.client i).connfd = some unixfd) {d : Desc}
    (hudp : ∀ n ∈ d.name, n.1 = afInet ∨ n.1 = afInet6 → d.udp = true) :
    Inv (s.handle i unixfd (.desc d)) := by
  simp only [Sys.handle, Sys.register]
  split
  · next hreg =>
    split at hreg
    · cases hreg
    · next family port hname =>
      have hudp := hudp (family, port) hname
      split at hreg
      · split at hreg
        · cases hreg
        · cases hreg
          exact h.accepted hi (p := ⟨d.udp, family, _⟩) hudp
      · cases hreg
        exact h.accepted hi (p := ⟨d.udp, family, _⟩) hudp
  · next hreg =>
    split at hreg
    · cases hreg
      exact h.release hi rfl
    · split at hreg
      · split at hreg
        · -- what is left in the entry is not that of a client
          cases hreg
          simp only [Sys.clientdone, Sys.note, Function.update_idem, Function.update_self]
          exact h.release hi rfl
        · cases hreg
      · cases hreg

theorem mem_targets {family : ℤ} {sport : ℕ} {c : ConnId} (h : c ∈ s.targets family sport) :
    ∃ i fd, (s.client i).connfd = some fd ∧ s.conn fd = some c ∧ (s.client i).family = family ∧
      (s.client i).lport = sport := by
  obtain ⟨i, -, hi⟩ := List.mem_filterMap.mp h
  split at hi
  · next hmatch =>
    obtain ⟨fd, hfd, hc⟩ := Option.bind_eq_some_iff.mp hi
    exact ⟨i, fd, hfd, hc, hmatch⟩
  · cases hi

/-- The clients to which an error is written have asked for it. -/
theorem Inv.registered_of_mem_targets (h : Inv s) {v : Ver} {msg : List UInt8} {sport : ℕ}
    {err : IcmpdErr} {c : ConnId} (hport : quotedPort v msg = some sport)
    (hc : c ∈ s.targets v.family sport) : Registered s.passed ⟨c, v, msg, err⟩ := by
  obtain ⟨i, fd, hfd, hconn, hfamily, hlport⟩ := mem_targets hc
  obtain ⟨b, hb, hback⟩ := h.owned i fd hfd
  have hbc : b = c := Option.some.inj (hb.symm.trans hconn)
  subst hbc
  have hnoted : (s.client i).Noted := by
    refine ⟨?_, by rw [hlport]; exact Int.natCast_nonneg sport⟩
    rw [hfamily]
    cases v with
    | v4 => exact .inl rfl
    | v6 => exact .inr rfl
  obtain ⟨p, hp, hudp, hpf, hpp⟩ := hback hnoted
  refine ⟨p, hp, hudp, hpf.trans hfamily, ?_⟩
  rw [hport, hpp, hlport]
  rfl

theorem Inv.written (h : Inv s) {sent : List Delivery}
    (hsent : ∀ d ∈ sent, Registered s.passed d) :
    Inv { s with written := s.written ++ sent } where
  owned := h.owned
  distinct := h.distinct
  registered := fun d hd => (List.mem_append.mp hd).elim (h.registered d) (hsent d)

/-- A message has been received. -/
theorem Inv.readable (h : Inv s) {v : Ver} {msg : List UInt8}
    (hwhole : Quotes v msg → v.udp msg + 2 ≤ msg.length) (rest : List UInt8) (fails : Option ℕ)
    (pc : Pc) : Inv (s.readable v msg rest fails pc) := by
  unfold Sys.readable
  split
  · exact h.exit
  · exact h.ret pc
  · next sport err hlook =>
    have hport := quotedPort_of_look hlook hwhole
    have hsent : ∀ d ∈ (s.targets v.family sport).map fun c => (⟨c, v, msg, err⟩ : Delivery),
        Registered s.passed d := by
      intro d hd
      obtain ⟨c, hc, rfl⟩ := List.mem_map.mp hd
      exact h.registered_of_mem_targets hport hc
    split
    · exact (h.written hsent).ret pc
    · exact (h.written fun d hd => hsent d (List.mem_of_mem_take hd)).exit

/-- A connection has been accepted. -/
theorem Inv.readableListen (h : Inv s) (hnew : s.conn connfd = none)
    (hnot : ∀ i ∈ s.free, ¬(s.client i).Noted) : Inv (s.readableListen connfd) := by
  unfold Sys.readableListen
  split
  · exact { h with }
  · next i hi =>
    have henter := h.enter hnew (hnot i hi)
    split
    · exact { henter with }
    · exact { henter with }

theorem Inv.handle (h : Inv s) (hi : (s.client i).connfd = some unixfd) {r : Received} {ok : Bool}
    (hr : Careful s (.recv r ok)) : Inv (s.handle i unixfd r) := by
  cases r with
  | eof => exact h.release hi rfl
  | data => exact h.release hi rfl
  | desc d => exact h.desc hi hr

/-- **One step keeps the entries apart from each other.** -/
theorem Inv.step {s' : Sys} {a : Act} (h : Inv s) (ha : Careful s a)
    (hs : Daemon.step s a = some s') : Inv s' := by
  cases next_of_step hs with
  | selected => exact { h with }
  | accepted hnew => exact h.readableListen hnew ha
  | examined => exact h.readable ha _ _ _
  | received hi =>
    unfold Sys.readableConn
    split
    · exact (h.handle hi ha).ret _
    · exact (h.handle hi ha).exit
  | tick =>
    unfold Sys.tick
    split
    · split
      · exact { h with }
      · exact { h with }
    · exact { h with }
  | failed => exact h.exit

end Inv

/-- **Errors go to the clients that have asked for them**, in every run whose steps are
careful. -/
theorem registered_of_careful {fd4 fd6 listenfd : Fd} {as : List Act} {s : Sys}
    (hcareful : Along step Careful (init fd4 fd6 listenfd) as)
    (hrun : exec step (init fd4 fd6 listenfd) as = some s) :
    ∀ d ∈ s.written, Registered s.passed d :=
  (exec_invariant_along (I := Inv) (fun _ _ _ h ha hs => h.step ha hs) as _ s
    (inv_init fd4 fd6 listenfd) hcareful hrun).registered

/-- The port unreachable error for a datagram from the port 7777. -/
def portUnreachable : List UInt8 :=
  0x45 :: List.replicate 19 0 ++ [3, 3, 0, 0, 0, 0, 0, 0] ++
    0x45 :: List.replicate 8 0 ++ 17 :: List.replicate 10 0 ++ [0x1e, 0x61, 0, 53, 0, 0, 0, 0]

/-- A client connects and passes a UDP socket that is bound to the port 7777. -/
def registerRun : List Act :=
  [.select (· == 5), .accept 6,
    .select (· == 6), .tick, .recv (.desc ⟨true, some (afInet, 7777), none⟩) true]

/-- An error for the port 7777 comes in. -/
def errorRun : List Act := [.select (· == 3), .icmp .v4 portUnreachable [] none]

/-- The client gets it. -/
theorem registered_of_careful_once :
    ∃ s, exec step (init 3 4 5) (registerRun ++ errorRun) = some s ∧
      s.written.length = 1 ∧ ∀ d ∈ s.written, Registered s.passed d := by
  obtain ⟨s, hs, hlen⟩ := Option.map_eq_some_iff.mp
    (show (exec step (init 3 4 5) (registerRun ++ errorRun)).map (fun s => s.written.length) =
      some 1 by decide +kernel)
  exact ⟨s, hs, hlen, registered_of_careful (by decide +kernel) hs⟩

/-- **An error goes to a client that has not asked for it.**  The client leaves, another
one connects and gets its entry, and the error comes in. -/
theorem stale_entry :
    ∃ as s, exec step (init 3 4 5) as = some s ∧ ∃ d ∈ s.written, ¬Registered s.passed d := by
  let as := registerRun ++
    [.select (· == 6), .tick, .recv .eof true, .select (· == 5), .accept 6] ++ errorRun
  obtain ⟨s, hs, hseen⟩ := Option.map_eq_some_iff.mp
    (show (exec step (init 3 4 5) as).map
        (fun s => (s.written.map Delivery.conn, s.passed 1)) = some ([1], []) by decide +kernel)
  obtain ⟨hconn, hpassed⟩ := Prod.mk.inj hseen
  obtain ⟨d, hd, hone⟩ := List.mem_map.mp (hconn ▸ List.mem_singleton_self 1)
  refine ⟨as, s, hs, d, hd, ?_⟩
  rintro ⟨p, hp, -⟩
  rw [hone, hpassed] at hp
  cases hp

end TcpIp.Icmp.Daemon
