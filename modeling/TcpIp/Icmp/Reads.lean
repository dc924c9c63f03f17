import TcpIp.Icmp.Daemon
import TcpIp.Icmp.Traceroute

/-!
# What is read of an ICMP message

`readable_v4` and `readable_v6` of `icmpd`, and `recv_v4` and `recv_v6` of `traceroute`,
look into a buffer in which `n` bytes have been received.  Behind these bytes the buffer
holds whatever it held before.  Here the four functions are programs that read the buffer
member by member, in the order in which the source does, so that it can be asked whether
they stay within the message.

## Main definitions

* `Reads.readable` — the handlers of the daemon behind `Recvfrom`, with the loop over the
  clients.
* `Reads.examine` — one turn of the loops of `traceroute` behind `recvfrom`.
* `Held` — the message holds what the daemon reads of it.

## Main results

* `run_readable`, `run_examine` — the programs compute what the functions of
  `TcpIp.Icmp.Daemon` and `TcpIp.Icmp.Traceroute` do.
* `readable_within_iff` — the daemon stays within a message **exactly if** it is held.
* `examine_within` — `traceroute` stays within every message.
-/

namespace TcpIp.Icmp

open Bytes
open Gai (afInet afInet6)
open Select (Fd)

namespace Reads

/-! ### The daemon -/

open Daemon

/-- How a handler ends. -/
inductive Handled where
  /-- `err_quit`. -/
  | quit
  /-- The handler returns; these errors have been written to these descriptors. -/
  | done (written : List (Fd × IcmpdErr))
  deriving DecidableEq, Repr

/-- The test of the loop over the clients. -/
def wanted (family : ℤ) (sport : ℕ) (c : Client) : Bool :=
  c.family == family && c.lport == sport

/-- The loop over the clients.  What is written is put together anew for each client. -/
def notify (family : ℤ) (sport : ℕ) (err : Peek IcmpdErr) :
    List Client → Peek (List (Fd × IcmpdErr))
  | [] => return []
  | c :: cs =>
    match c.connfd with
    | none => notify family sport err cs
    | some connfd =>
      if wanted family sport c then do
        let e ← err
        let written ← notify family sport err cs
        return (connfd, e) :: written
      else notify family sport err cs

/-- `icmpd_err` as `readable_v4` fills it in. -/
def icmpdErr4 (icmp hip udp : ℕ) : Peek IcmpdErr := do
  let addr ← ipDst hip
  let port ← uhDport udp
  let type ← icmpType icmp
  let code ← icmpCode icmp
  return { errno := errno4 type code, type, code, len := 16, dest := ⟨afInet, addr, port⟩ }

/-- `icmpd_err` as `readable_v6` fills it in. -/
def icmpdErr6 (hip6 udp : ℕ) : Peek IcmpdErr := do
  let addr ← ip6Dst hip6
  let port ← uhDport udp
  let type ← icmpType 0
  let code ← icmpCode 0
  return { errno := errno6 type code, type, code, len := 28, dest := ⟨afInet6, addr, port⟩ }

/-- `readable_v4` behind `Recvfrom`, which has returned `n`; `client` are the entries up to
`maxi`. -/
def readableV4 (client : List Client) (n : ℕ) : Peek Handled := do
  let hlen1 ← hlen 0
  let icmplen : ℤ := n - hlen1
  if icmplen < 8 then return .quit
  else
    let type ← icmpType hlen1
    -- only printed
    let _ ← icmpCode hlen1
    if isError4 type then
      if icmplen < 8 + 20 + 8 then return .quit
      else
        let hip := hlen1 + 8
        let hlen2 ← hlen hip
        -- only printed
        let _ ← ipSrc hip
        let _ ← ipDst hip
        let p ← ipP hip
        if p = ipprotoUdp then
          let udp := hlen1 + 8 + hlen2
          let sport ← uhSport udp
          let written ← notify afInet sport (icmpdErr4 hlen1 hip udp) client
          return .done written
        else return .done []
    else return .done []

/-- `readable_v6` behind `Recvfrom`. -/
def readableV6 (client : List Client) (n : ℕ) : Peek Handled := do
  let icmp6len := n
  if icmp6len < 8 then return .quit
  else
    let type ← icmpType 0
    -- only printed
    let _ ← icmpCode 0
    if isError6 type then
      if icmp6len < 8 + 8 then return .quit
      else
        let hip6 := 8
        let hlen2 := sizeofIp6
        -- only printed
        let _ ← ip6Src hip6
        let _ ← ip6Dst hip6
        let nxt ← ip6Nxt hip6
        if nxt = ipprotoUdp then
          let udp := 8 + hlen2
          let sport ← uhSport udp
          let written ← notify afInet6 sport (icmpdErr6 hip6 udp) client
          return .done written
        else return .done []
    else return .done []

def readable : Ver → List Client → ℕ → Peek Handled
  | .v4 => readableV4
  | .v6 => readableV6

section Daemon

variable {v : Ver} {family : ℤ} {sport n : ℕ} {err : Peek IcmpdErr} {buf msg rest : List UInt8}

/-- The descriptors of the clients that are told. -/
def told (family : ℤ) (sport : ℕ) (client : List Client) : List Fd :=
  client.filterMap fun c => if wanted family sport c then c.connfd else none

theorem told_cons (c : Client) (cs : List Client) : told family sport (c :: cs) =
    (if wanted family sport c then c.connfd else none).toList ++ told family sport cs := by
  rw [told, List.filterMap_cons]
  cases (if wanted family sport c then c.connfd else none) <;> rfl

theorem run_notify (client : List Client) : (notify family sport err client).run buf =
    (told family sport client).map fun fd => (fd, err.run buf) := by
  induction client with
  | nil => rfl
  | cons c cs ih =>
    rw [notify, told_cons]
    cases c.connfd with
    | none => simp [ih]
    | some connfd =>
      by_cases hwant : wanted family sport c = true
      · simp [hwant, ih]
      · simp [hwant, ih]

/-- The message is looked at again only for a client that is told. -/
theorem within_notify (client : List Client) : (notify family sport err client).Within n buf ↔
    (told family sport client ≠ [] → err.Within n buf) := by
  induction client with
  | nil => simp [notify, told]
  | cons c cs ih =>
    rw [notify, told_cons]
    cases c.connfd with
    | none => simpa using ih
    | some connfd =>
      by_cases hwant : wanted family sport c = true
      · simp +contextual [hwant, ih]
      · simpa [hwant] using ih

/-- **What the handlers do** with the message and the clients. -/
theorem run_readable (client : List Client) : (readable v client n).run buf =
    match look v buf n with
    | .quit => .quit
    | .skip => .done []
    | .pass sport err => .done ((told v.family sport client).map fun fd => (fd, err)) := by
  cases v with
  | v4 =>
    simp only [readable, readableV4, look, Daemon.readableV4, Peek.run_bind, run_hlen,
      apply_ite (Peek.run buf), Peek.run_pure, run_icmpType, run_ipP, run_uhSport, run_notify,
      icmpdErr4, run_icmpCode, run_ipDst, run_uhDport]
    split_ifs <;> rfl
  | v6 =>
    simp only [readable, readableV6, look, Daemon.readableV6, Peek.run_bind,
      apply_ite (Peek.run buf), Peek.run_pure, run_icmpType, run_ip6Nxt, run_uhSport, run_notify,
      icmpdErr6, run_icmpCode, run_ip6Dst, run_uhDport]
    split_ifs <;> rfl

theorem told_ne_nil_iff (client : List Client) : told family sport client ≠ [] ↔
    ∃ c ∈ client, c.connfd ≠ none ∧ c.family = family ∧ c.lport = sport := by
  have hnone : ∀ c : Client, (if wanted family sport c then c.connfd else none) ≠ none ↔
      c.connfd ≠ none ∧ c.family = family ∧ c.lport = sport := by
    intro c
    rw [ne_eq, ite_eq_right_iff, Classical.not_imp, wanted, Bool.and_eq_true, beq_iff_eq,
      beq_iff_eq]
    exact and_comm
  rw [told, ne_eq, List.filterMap_eq_nil_iff]
  simp only [not_forall, exists_prop]
  exact exists_congr fun c => and_congr_right fun _ => hnone c

theorem within_icmpdErr4 {icmp hip udp : ℕ} : (icmpdErr4 icmp hip udp).Within n buf ↔
    hip + 20 ≤ n ∧ udp + 4 ≤ n ∧ icmp + 1 < n := by
  simp [icmpdErr4]
  omega

theorem within_icmpdErr6 {hip6 udp : ℕ} : (icmpdErr6 hip6 udp).Within n buf ↔
    hip6 + 40 ≤ n ∧ udp + 4 ≤ n ∧ 1 < n := by
  simp [icmpdErr6]
  omega

/-- What the handlers read behind the quoted IP header. -/
theorem within_ports {proto udp : ℕ} (client : List Client) :
    (if proto = ipprotoUdp then do
        let sport ← uhSport udp
        let written ← notify family sport err client
        return .done written
      else return .done [] : Peek Handled).Within n buf ↔
    (proto = ipprotoUdp → udp + 2 ≤ n ∧
      ((∃ c ∈ client, c.connfd ≠ none ∧ c.family = family ∧
          c.lport = Icmp.uhSport buf udp) → err.Within n buf)) := by
  split
  · next hudp =>
    simp only [Peek.within_bind, within_uhSport, run_uhSport, within_notify, told_ne_nil_iff,
      Peek.within_pure, and_true, hudp, true_implies]
  · next hother =>
    exact iff_of_true (Peek.within_pure _) fun hudp => absurd hudp hother

end Daemon

/-- The length that the handler asks of an error, from the ICMP header on. -/
def checked : Ver → ℕ
  | .v4 => 8 + 20 + 8
  | .v6 => 8 + 8

/-- **The message holds what the daemon reads of it**: an error that passes the length
check holds the quoted IP header, behind it the source port of a UDP header, and the
destination port too if it is for one of the clients. -/
def Held (v : Ver) (client : List Client) (msg : List UInt8) : Prop :=
  v.icmp msg + checked v ≤ msg.length → isError v (Icmp.icmpType msg (v.icmp msg)) = true →
    v.ip msg + v.sizeofIp ≤ msg.length ∧
    (v.proto msg = ipprotoUdp → v.udp msg + 2 ≤ msg.length ∧
      ((∃ c ∈ client, c.connfd ≠ none ∧ c.family = v.family ∧
          c.lport = Icmp.uhSport msg (v.udp msg)) → v.udp msg + 4 ≤ msg.length))

instance (v : Ver) (client : List Client) (msg : List UInt8) : Decidable (Held v client msg) :=
  inferInstanceAs (Decidable (_ → _ → _ ∧ (_ → _ ∧ (_ → _))))

section Held

variable {v : Ver} {client : List Client} {msg rest : List UInt8}

theorem readableV4_within_iff (hmsg : 0 < msg.length) :
    (readableV4 client msg.length).Within msg.length msg ↔ Held .v4 client msg := by
  have hip : Ver.v4.ip msg = Icmp.hlen msg 0 + 8 := rfl
  have hudp : Ver.v4.udp msg = Icmp.hlen msg 0 + 8 + Icmp.hlen msg (Icmp.hlen msg 0 + 8) := rfl
  have hproto : Ver.v4.proto msg = Icmp.ipP msg (Icmp.hlen msg 0 + 8) := rfl
  unfold readableV4 Held
  simp only [Peek.within_bind, within_hlen, run_hlen, hmsg, true_and, isError, checked,
    Ver.sizeofIp, Ver.icmp, hip]
  split
  · next hshort =>
    refine iff_of_true (Peek.within_pure _) fun hlong => ?_
    omega
  · next hlong =>
    have htype : Icmp.hlen msg 0 < msg.length ∧ Icmp.hlen msg 0 + 1 < msg.length := by omega
    simp only [Peek.within_bind, within_icmpType, run_icmpType, within_icmpCode, htype, true_and]
    split
    · next herror =>
      split
      · next hcut =>
        refine iff_of_true (Peek.within_pure _) fun hlong => ?_
        omega
      · next hpass =>
        have hlong : Icmp.hlen msg 0 + (8 + 20 + 8) ≤ msg.length := by omega
        have hquoted : Icmp.hlen msg 0 + 8 < msg.length ∧ Icmp.hlen msg 0 + 8 + 9 < msg.length ∧
            Icmp.hlen msg 0 + 8 + 12 + 4 ≤ msg.length ∧
            Icmp.hlen msg 0 + 8 + 16 + 4 ≤ msg.length ∧
            Icmp.hlen msg 0 + 8 + 20 ≤ msg.length := by omega
        simp only [Peek.within_bind, within_hlen, run_hlen, within_ipSrc, within_ipDst,
          within_ipP, run_ipP, within_ports, within_icmpdErr4, hquoted, htype, true_and, and_true,
          herror, hlong, true_implies, hproto, hudp, Ver.family]
    · next hother => simp [hother]

theorem readableV6_within_iff :
    (readableV6 client msg.length).Within msg.length msg ↔ Held .v6 client msg := by
  have hip : Ver.v6.ip msg = 8 := rfl
  have hudp : Ver.v6.udp msg = 8 + sizeofIp6 := rfl
  have hproto : Ver.v6.proto msg = Icmp.ip6Nxt msg 8 := rfl
  unfold readableV6 Held
  simp only [isError, checked, Ver.sizeofIp, Ver.icmp, hip]
  split
  · next hshort =>
    refine iff_of_true (Peek.within_pure _) fun hlong => ?_
    omega
  · next hlong =>
    have htype : 0 < msg.length ∧ 0 + 1 < msg.length := by omega
    simp only [Peek.within_bind, within_icmpType, run_icmpType, within_icmpCode, htype, true_and]
    split
    · next herror =>
      split
      · next hcut =>
        refine iff_of_true (Peek.within_pure _) fun hlong => ?_
        omega
      · next hpass =>
        have hlong : 0 + (8 + 8) ≤ msg.length := by omega
        simp only [Peek.within_bind, within_ip6Src, within_ip6Dst, within_ip6Nxt, run_ip6Nxt,
          within_ports, within_icmpdErr6, herror, hlong, true_implies, hproto, hudp, Ver.family]
        -- the check does not cover the quoted header, which is read all the same
        by_cases hquoted : 8 + sizeofIp6 ≤ msg.length
        · have hall : 8 + 8 + 16 ≤ msg.length ∧ 8 + 24 + 16 ≤ msg.length ∧ 8 + 6 < msg.length ∧
              8 + 40 ≤ msg.length ∧ 1 < msg.length := by
            unfold sizeofIp6 at hquoted
            omega
          simp only [hall, hquoted, true_and, and_true]
        · refine iff_of_false (fun h => hquoted ?_) fun h => hquoted h.1
          exact h.2.1
    · next hother => simp [hother]

theorem within_iff_held (hmsg : v = .v4 → 0 < msg.length) :
    (readable v client msg.length).Within msg.length msg ↔ Held v client msg := by
  cases v with
  | v4 => exact readableV4_within_iff (hmsg rfl)
  | v6 => exact readableV6_within_iff

/-- What the daemon makes of such a message does not depend on what else is in its buffer. -/
theorem run_readable_append (hmsg : v = .v4 → 0 < msg.length) (hheld : Held v client msg) :
    (readable v client msg.length).run (msg ++ rest) =
      (readable v client msg.length).run msg :=
  Peek.run_append _ ((within_iff_held hmsg).mpr hheld)

/-- **The daemon stays within a message exactly if the message holds what it reads.** -/
theorem readable_within_iff (hmsg : v = .v4 → 0 < msg.length) :
    (readable v client msg.length).Within msg.length (msg ++ rest) ↔ Held v client msg :=
  (Peek.within_append _).trans (within_iff_held hmsg)

/-- An unreachable port, with 28 bytes of the datagram for it: the first byte of its IP
header is `hl`, and its protocol is UDP. -/
def unreach (hl : UInt8) : List UInt8 :=
  List.replicate 20 0x45 ++ [3, 3, 0, 0, 0, 0, 0, 0] ++ List.replicate 9 hl ++
    List.replicate 19 17

theorem readable_within_of_plain : 0 < (unreach 0x45).length ∧
    (readable .v4 [⟨some 7, afInet, 0x1111⟩] 56).Within 56 (unreach 0x45 ++ []) :=
  ⟨by decide, (@readable_within_iff .v4 [⟨some 7, afInet, 0x1111⟩] (unreach 0x45) []
    fun _ => by decide).mpr (by decide)⟩

/-- Two messages that pass the length checks: the first quotes an IP header of sixty bytes,
of which it holds 28, the second eight bytes of an IPv6 header. -/
theorem readable_not_within :
    ¬(readable .v4 [] 56).Within 56 (unreach 0x4f) ∧
    ¬(readable .v6 [] 16).Within 16 (1 :: List.replicate 15 0) := by
  decide

end Held

/-! ### `traceroute` -/

open Traceroute

/-- The ports of the UDP header at `udp` are those of the probe. -/
def ports (p : Ports) (seq udp : ℕ) : Peek Bool := do
  let sport ← uhSport udp
  if sport = p.sport.toNat then
    let dport ← uhDport udp
    return dport == p.dportOf seq
  else return false

/-- What the two branches of `recv_v4` test; `none` if there is not enough of the quoted
datagram. -/
def probed4 (bits : ℕ) (p : Ports) (seq hlen1 : ℕ) (icmplen : ℤ) : Peek (Option Bool) :=
  if asUnsigned bits icmplen < 8 + 20 then return none
  else do
    let hip := hlen1 + 8
    let hlen2 ← hlen hip
    if icmplen < 8 + hlen2 + 4 then return none
    else
      let udp := hlen1 + 8 + hlen2
      let proto ← ipP hip
      if proto = ipprotoUdp then
        let found ← ports p seq udp
        return some found
      else return some false

/-- What the two branches of `recv_v6` test behind the length. -/
def probed6 (p : Ports) (seq : ℕ) : Peek Bool := do
  let hip6 := 8
  let hlen2 := sizeofIp6
  let udp := 8 + hlen2
  let nxt ← ip6Nxt hip6
  if nxt = ipprotoUdp then ports p seq udp else return false

/-- The type is `type` and the code is `code`, which is read only then. -/
def isTypeCode (icmp type code : ℕ) : Peek Bool := do
  let t ← icmpType icmp
  if t = type then
    let c ← icmpCode icmp
    return c == code
  else return false

/-- The message is another one, which is printed if `verbose` is set. -/
def other (verbose : Bool) (icmp : ℕ) : Peek Verdict :=
  if verbose then do
    let _ ← icmpType icmp
    let _ ← icmpCode icmp
    return .again
  else return .again

/-- The body of the loop of `recv_v4` behind `recvfrom`, which has returned `n`. -/
def examine4 (bits : ℕ) (verbose : Bool) (p : Ports) (seq n : ℕ) : Peek Verdict := do
  let hlen1 ← hlen 0
  let icmplen : ℤ := n - hlen1
  if icmplen < 8 then return .again
  else
    let transit ← isTypeCode hlen1 icmpTimxceed icmpTimxceedIntrans
    if transit then
      let probed ← probed4 bits p seq hlen1 icmplen
      if probed = some true then return .leave (some (-2))
      else if probed = none then return .again
      else other verbose hlen1
    else
      let type ← icmpType hlen1
      if type = icmpUnreach then
        let probed ← probed4 bits p seq hlen1 icmplen
        if probed = some true then
          let code ← icmpCode hlen1
          return .leave (some (if code = icmpUnreachPort then -1 else code))
        else if probed = none then return .again
        else other verbose hlen1
      else other verbose hlen1

/-- The body of the loop of `recv_v6` behind `recvfrom`. -/
def examine6 (bits : ℕ) (verbose : Bool) (p : Ports) (seq n : ℕ) : Peek Verdict := do
  let icmp6len : ℤ := n
  if icmp6len < 8 then return .again
  else
    let transit ← isTypeCode 0 icmp6TimeExceeded icmp6TimeExceedTransit
    if transit then
      if asUnsigned bits icmp6len < 8 + sizeofIp6 + 4 then return .again
      else
        let probed ← probed6 p seq
        -- the `break` does not belong to the `if` in front of it
        return .leave (if probed then some (-2) else none)
    else
      let type ← icmpType 0
      if type = icmp6DstUnreach then
        if asUnsigned bits icmp6len < 8 + sizeofIp6 + 4 then return .again
        else
          let probed ← probed6 p seq
          if probed then
            let code ← icmpCode 0
            return .leave (some (if code = icmp6DstUnreachNoport then -1 else code))
          else return .again
      else other verbose 0

def examine : Ver → ℕ → Bool → Ports → ℕ → ℕ → Peek Verdict
  | .v4 => examine4
  | .v6 => examine6

section Traceroute

variable {v : Ver} {bits seq n i : ℕ} {verbose : Bool} {p : Ports} {buf : List UInt8} {x : ℤ}

@[simp] theorem run_ports {udp : ℕ} : (ports p seq udp).run buf = p.match seq buf udp := by
  simp only [ports, Peek.run_bind, run_uhSport, Ports.match]
  by_cases hsport : Icmp.uhSport buf udp = p.sport.toNat
  · simp [hsport]
  · simp [hsport]

theorem within_ports_of_le {udp : ℕ} (h : udp + 4 ≤ n) : (ports p seq udp).Within n buf := by
  simp only [ports, Peek.within_bind, within_uhSport]
  refine ⟨by omega, ?_⟩
  split
  · simp only [Peek.within_bind, within_uhDport, Peek.within_pure, and_true]
    omega
  · exact Peek.within_pure _

@[simp] theorem run_isTypeCode {type code : ℕ} : (isTypeCode i type code).run buf =
    decide (Icmp.icmpType buf i = type ∧ Icmp.icmpCode buf i = code) := by
  simp only [isTypeCode, Peek.run_bind, run_icmpType]
  split
  · next htype => simp [htype, beq_eq_decide]
  · next htype => simp [htype]

theorem within_isTypeCode {type code : ℕ} (h : i + 1 < n) :
    (isTypeCode i type code).Within n buf := by
  simp only [isTypeCode, Peek.within_bind, within_icmpType, run_icmpType]
  refine ⟨by omega, ?_⟩
  split
  · simp [h]
  · exact Peek.within_pure _

@[simp] theorem run_other : (other verbose i).run buf = .again := by
  cases verbose <;> rfl

theorem within_other (h : i + 1 < n) : (other verbose i).Within n buf := by
  cases verbose with
  | false => exact Peek.within_pure _
  | true =>
    simp only [other, if_true, Peek.within_bind, within_icmpType, within_icmpCode,
      Peek.within_pure, and_true]
    omega

/-- What is read of the quoted datagram lies in the message, whatever the two lengths are. -/
theorem within_probed4 {hlen1 : ℕ} (hicmplen : 8 ≤ (n : ℤ) - hlen1) :
    (probed4 bits p seq hlen1 (n - hlen1)).Within n buf := by
  have hsize : asUnsigned bits ((n : ℤ) - hlen1) ≤ n - hlen1 := asUnsigned_le (by omega)
  unfold probed4
  split
  · exact Peek.within_pure _
  · next hip =>
    simp only [Peek.within_bind, within_hlen, run_hlen]
    refine ⟨by omega, ?_⟩
    split
    · exact Peek.within_pure _
    · next hudp =>
      simp only [Peek.within_bind, within_ipP, run_ipP]
      refine ⟨by omega, ?_⟩
      split
      · simp only [Peek.within_bind, Peek.within_pure, and_true]
        exact within_ports_of_le (by omega)
      · exact Peek.within_pure _

theorem within_probed6 (h : 8 + sizeofIp6 + 4 ≤ n) : (probed6 p seq).Within n buf := by
  have hsize : sizeofIp6 = 40 := rfl
  simp only [probed6, Peek.within_bind, within_ip6Nxt, run_ip6Nxt]
  refine ⟨by omega, ?_⟩
  split
  · exact within_ports_of_le (by omega)
  · exact Peek.within_pure _

theorem examine4_within (hn : 0 < n) : (examine4 bits verbose p seq n).Within n buf := by
  simp only [examine4, Peek.within_bind, within_hlen, run_hlen]
  refine ⟨hn, ?_⟩
  split
  · exact Peek.within_pure _
  · next hlong =>
    have hother : (other verbose (Icmp.hlen buf 0)).Within n buf := within_other (by omega)
    have hprobed := @within_probed4 bits seq n p buf (Icmp.hlen buf 0) (by omega)
    simp only [Peek.within_bind]
    refine ⟨within_isTypeCode (by omega), ?_⟩
    split
    · refine (Peek.within_bind ..).mpr ⟨hprobed, ?_⟩
      split_ifs
      · exact Peek.within_pure _
      · exact Peek.within_pure _
      · exact hother
    · simp only [Peek.within_bind, within_icmpType]
      refine ⟨by omega, ?_⟩
      split
      · refine (Peek.within_bind ..).mpr ⟨hprobed, ?_⟩
        split_ifs
        · simp only [Peek.within_bind, within_icmpCode, Peek.within_pure, and_true]
          omega
        · exact Peek.within_pure _
        · exact hother
      · exact hother

theorem examine6_within : (examine6 bits verbose p seq n).Within n buf := by
  have hsize : sizeofIp6 = 40 := rfl
  simp only [examine6]
  split
  · exact Peek.within_pure _
  · next hlong =>
    have hle : asUnsigned bits n ≤ n := asUnsigned_le (by omega)
    simp only [Peek.within_bind]
    refine ⟨within_isTypeCode (by omega), ?_⟩
    split
    · split
      · exact Peek.within_pure _
      · refine (Peek.within_bind ..).mpr ⟨within_probed6 (by omega), Peek.within_pure _⟩
    · simp only [Peek.within_bind, within_icmpType]
      refine ⟨by omega, ?_⟩
      split
      · split
        · exact Peek.within_pure _
        · refine (Peek.within_bind ..).mpr ⟨within_probed6 (by omega), ?_⟩
          split
          · simp only [Peek.within_bind, within_icmpCode, Peek.within_pure, and_true]
            omega
          · exact Peek.within_pure _
      · exact within_other (by omega)

theorem run_probed4 {hlen1 : ℕ} {icmplen : ℤ} (hpos : 0 ≤ icmplen) (hlt : icmplen < 2 ^ bits) :
    (probed4 bits p seq hlen1 icmplen).run buf = some true ↔
      Traceroute.probed4 p seq buf hlen1 icmplen = true := by
  simp only [probed4, Traceroute.probed4, asUnsigned_of_lt hpos hlt]
  split
  · simp
  · simp only [Peek.run_bind, run_hlen]
    split
    · simp
    · simp only [Peek.run_bind, run_ipP]
      split
      · next hproto => simp [hproto]
      · next hproto => simp [hproto]

theorem run_probed6 : (probed6 p seq).run buf = Traceroute.probed6 p seq buf := by
  simp only [probed6, Traceroute.probed6, Peek.run_bind, run_ip6Nxt]
  split
  · next hproto => simp [hproto]
  · next hproto => simp [hproto]

/-- **What the loops make of a message.** -/
theorem run_examine (hn : n < 2 ^ bits) :
    (examine v bits verbose p seq n).run buf = Traceroute.examine v p seq buf n := by
  have hlt : (n : ℤ) < 2 ^ bits := by exact_mod_cast hn
  cases v with
  | v4 =>
    simp only [examine, examine4, Traceroute.examine, Traceroute.examine4, Peek.run_bind, run_hlen]
    split
    · rfl
    · next hlong =>
      have hprobed := @run_probed4 bits seq p buf (Icmp.hlen buf 0) (n - Icmp.hlen buf 0)
        (by omega) (by omega)
      simp only [Peek.run_bind, run_isTypeCode, decide_eq_true_eq]
      split
      · simp only [Peek.run_bind, hprobed]
        split_ifs <;> simp
      · simp only [Peek.run_bind, run_icmpType]
        split
        · simp only [Peek.run_bind, hprobed]
          split_ifs with hquoted hcode <;> simp [*]
        · exact run_other
  | v6 =>
    simp only [examine, examine6, Traceroute.examine, Traceroute.examine6]
    have hshort : ((n : ℤ) < 8) ↔ n < 8 := by omega
    have hcut : (asUnsigned bits n < 8 + sizeofIp6 + 4) ↔ n < 8 + sizeofIp6 + 4 := by
      rw [asUnsigned_of_lt (by omega) hlt]
      omega
    simp only [hshort, hcut]
    split
    · rfl
    · simp only [Peek.run_bind, run_isTypeCode, decide_eq_true_eq]
      split
      · split
        · rfl
        · simp only [Peek.run_bind, Peek.run_pure, run_probed6]
      · simp only [Peek.run_bind, run_icmpType]
        split
        · split
          · rfl
          · simp only [Peek.run_bind, run_probed6]
            split
            · simp
            · rfl
        · exact run_other

/-- **`traceroute` stays within every message**, whatever the header lengths in it are. -/
theorem examine_within (hn : v = .v4 → 20 ≤ n) :
    (examine v bits verbose p seq n).Within n buf := by
  cases v with
  | v4 =>
    have h20 := hn rfl
    exact examine4_within (by omega)
  | v6 => exact examine6_within

/-- An answer to the probe 1, whose ports are those of the message. -/
theorem examine_within_answer : 20 ≤ 56 ∧
    (examine .v4 64 true ⟨0x1111, 0x1110⟩ 1 56).Within 56 (unreach 0x45) ∧
    (examine .v4 64 true ⟨0x1111, 0x1110⟩ 1 56).run (unreach 0x45) = .leave (some (-1)) :=
  ⟨by decide, examine_within fun _ => by decide, by decide⟩

end Traceroute

end Reads

end TcpIp.Icmp
