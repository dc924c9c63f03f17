import TcpIp.Gai.Clone
import TcpIp.Gai.RoundTrip

/-!
# Services given as numbers

A service that is a string of digits goes through `atoi` and `htons` into a port of 16
bits.  Nothing checks that it fits: a value beyond `65535` is accepted, and the port is
another one.

## Main definitions

* `Addrinfo.port` — the port a caller reads in an entry.

## Main results

* `numeric_service_iff` — which numbers are kept.
-/

namespace TcpIp.Gai

open Fallible

/-- The port of an entry, converted from network byte order. -/
def Addrinfo.port (env : Env) (ai : Addrinfo) : Option ℕ :=
  ai.addr.port.map fun p => (env.ntohs p).toNat

/-- A string of digits is read to its end. -/
theorem atoi_of_digits {serv : CString} (hdigits : ∀ c ∈ serv, c.isDigit = true) :
    atoi serv = Nat.ofDigitChars 10 serv 0 := by
  rw [atoi, List.takeWhile_eq_self_iff.mpr hdigits]

/-- The port of a number. -/
theorem port_setPort (env : Env) {ai : Addrinfo} (hai : ai.addr.addr.isInet) (x : UInt16) (t : ℤ) :
    (ai.setPort (env.htons x) t).port env = some x.toNat := by
  cases haddr : ai.addr with
  | in4 p a => simp [Addrinfo.port, Addrinfo.setPort, haddr, Sockaddr.addr, Addr.sockaddr,
      Sockaddr.port]
  | in6 p a => simp [Addrinfo.port, Addrinfo.setPort, haddr, Sockaddr.addr, Addr.sockaddr,
      Sockaddr.port]
  | un path => simp [haddr, Sockaddr.addr, Addr.isInet] at hai

/-- All socket types get the same port. -/
theorem snd_of_mem_servTypes {env : Env} {hints : Hints} {serv : CString} {q : ℤ × UInt16}
    (hdigit : startsWithDigit serv = true) (hq : q ∈ servTypes env hints serv) :
    q.2 = env.htons (.ofNat (atoi serv)) := by
  rw [servTypes, if_pos hdigit] at hq
  simp only at hq
  split at hq
  · rw [List.mem_singleton.mp hq]
  · rcases List.mem_pair.mp hq with rfl | rfl
    · rfl
    · rfl

/-- And so does every entry. -/
theorem port_of_mem_spread {env : Env} {ai x : Addrinfo} (hai : ai.addr.addr.isInet) {v : UInt16}
    {ts : List (ℤ × UInt16)} (hts : ts ≠ []) (hports : ∀ q ∈ ts, q.2 = env.htons v)
    (hx : x ∈ spread ai ts) : x.port env = some v.toNat := by
  cases ts with
  | nil => exact absurd rfl hts
  | cons q ts =>
    rcases List.mem_cons.mp hx with rfl | hx
    · rw [hports q List.mem_cons_self]
      exact port_setPort env hai v q.1
    · obtain ⟨r, hr, rfl⟩ := List.mem_map.mp hx
      rw [hports r (List.mem_cons_of_mem q hr)]
      exact port_setPort env hai v r.1

/-- Until a service is filled in the port is `0`. -/
theorem Looked.port_eq {hints : Hints} {wanted : Bool} {as : List Addr} {ais : List Addrinfo}
    (h : Looked hints wanted as ais) (has : ∀ a ∈ as, a.isInet) (env : Env) {ai : Addrinfo}
    (hai : ai ∈ ais) : ai.port env = some 0 := by
  obtain ⟨a, ha, heq⟩ := h.exists_addr hai
  have haddr : ai.addr = a.sockaddr 0 := congrArg Addrinfo.addr heq
  have hinet := has a ha
  rw [Addrinfo.port, haddr]
  cases a with
  | in4 a => simp [Addr.sockaddr, Sockaddr.port, toNat_ntohs_zero]
  | in6 a => simp [Addr.sockaddr, Sockaddr.port, toNat_ntohs_zero]
  | un path => cases hinet

/-- There are entries, and all of them have the port of the number. -/
def NumberIn (env : Env) (v : ℕ) (r : List Addrinfo) : Prop :=
  r ≠ [] ∧ ∀ ai ∈ r, ai.port env = some (UInt16.ofNat v).toNat

theorem service_number_post (env : Env) {hints : Hints} {wanted : Bool} {as : List Addr}
    {ais : List Addrinfo} (h : Looked hints wanted as ais) (has : ∀ a ∈ as, a.isInet)
    {serv : CString} (hdigits : ∀ c ∈ serv, c.isDigit = true) :
    Post (service env (some serv) hints ais) (NumberIn env (atoi serv)) Behind := by
  have hne : ais ≠ [] := by
    obtain ⟨first, rest, rfl, -⟩ := h.canon
    exact List.cons_ne_nil first rest
  rcases serv with _ | ⟨c, cs⟩
  · -- no service, and no digits: the port stays `0`
    exact post_pure ⟨hne, fun ai hai => h.port_eq has env hai⟩
  · have hdigit : startsWithDigit (c :: cs) = true := hdigits c List.mem_cons_self
    refine (gaServ_post env hints (c :: cs) hne fun ai hai => h.fresh has hai).mono ?_
      fun e he => he.elim (behind_of_memFail e) And.right
    rintro _ ⟨hts, rfl⟩
    constructor
    · obtain ⟨ai, hai⟩ := List.exists_mem_of_ne_nil ais hne
      obtain ⟨x, hx, -⟩ := exists_mem_spread ai (servTypes env hints (c :: cs))
      exact List.ne_nil_of_mem (List.mem_flatMap.mpr ⟨ai, hai, hx⟩)
    · intro x hx
      obtain ⟨ai, hai, hx⟩ := List.mem_flatMap.mp hx
      exact port_of_mem_spread (h.isInet has hai) hts
        (fun q hq => snd_of_mem_servTypes hdigit hq) hx

/-- **Services given as numbers.**  A call for a service that is a string of digits, of
value `v`, and that returns `0` returns the port `v` in every entry exactly if `v` is a
port. -/
theorem numeric_service_iff (env : Env) (hostname : Option CString) (serv : CString)
    (hdigits : ∀ c ∈ serv, c.isDigit = true) (hintsp : Option Hints) (n n' : ℕ)
    (ais : List Addrinfo)
    (hrun : getaddrinfo env hostname (some serv) hintsp n = .ok (ais, n')) :
    (∀ ai ∈ ais, ai.port env = some (Nat.ofDigitChars 10 serv 0)) ↔
      Nat.ofDigitChars 10 serv 0 ≤ 65535 := by
  have hunix : unixCase hostname (some serv) = false := by
    cases serv with
    | nil => exact Bool.and_false _
    | cons c cs => exact unixCase_of_digit (hdigits c List.mem_cons_self)
  obtain ⟨-, hsome, hport⟩ := (getaddrinfoInet_post_of_service fun _ hlooked =>
    service_number_post env hlooked (fun _ ha => isInet_of_mem_addresses ha) hdigits).ok
      (getaddrinfoInet_of_ok hunix hrun)
  rw [atoi_of_digits hdigits] at hport
  constructor
  · -- some entry has the port, and a port is a number of 16 bits
    intro hkept
    obtain ⟨ai, hai⟩ := List.exists_mem_of_ne_nil ais hsome
    have heq := (hport ai hai).symm.trans (hkept ai hai)
    rw [Option.some.injEq] at heq
    rw [← heq]
    exact Nat.le_of_lt_succ (UInt16.toNat_lt _)
  · intro hle ai hai
    rw [hport ai hai, UInt16.toNat_ofNat', Nat.mod_eq_of_lt (Nat.lt_succ_of_le hle)]

theorem numeric_service_iff_port80 : ∃ ais n',
    getaddrinfo sampleEnv (some ['h']) (some ['0', '8', '0']) none 0 = .ok (ais, n') ∧
      ∀ ai ∈ ais, ai.port sampleEnv = some 80 := by
  cases hrun : getaddrinfo sampleEnv (some ['h']) (some ['0', '8', '0']) none 0 with
  | error e =>
    have hok : (getaddrinfo sampleEnv (some ['h']) (some ['0', '8', '0']) none 0).isOk = true := by
      decide
    rw [hrun] at hok
    cases hok
  | ok r =>
    exact ⟨r.1, r.2, rfl, (numeric_service_iff sampleEnv (some ['h']) ['0', '8', '0']
      (List.all_eq_true.mp rfl) none 0 r.2 r.1 hrun).mpr (by decide)⟩

/-- The service `"65616"` is accepted, and its port is `80`. -/
theorem number_beyond_ports_wrapped :
    (getaddrinfo sampleEnv (some ['h']) (some ['6', '5', '6', '1', '6']) none 0).toOption.map
        (fun r => r.1.map (Addrinfo.port sampleEnv)) = some [some 80, some 80] := by
  decide

end TcpIp.Gai
