import Mathlib.Data.Int.Notation
import TcpIp.Icmp.Message

/-!
# The replies that `ping` looks at

`ping` puts the time into the data of each request, and computes the round-trip time from
the data of the reply, which is the same.  A raw socket hands over every ICMP message, so
that `proc_v4` and `proc_v6` first have to see whether a message is a reply to a request of
this process, and whether it is long enough.

The time is a `struct timeval`, whose size depends on the machine.  What is printed is
recorded as the values that are handed to `printf`.

## Main definitions

* `procV4`, `procV6` — the two functions, as programs that read the message.
* `Cut` — a reply that ends in the middle of the time.

## Main results

* `proc_within_iff` — the functions stay within a message **exactly if** it is not cut.
-/

namespace TcpIp.Ping

open Bytes Icmp Icmp.Reads

/-! ### Times -/

/-- The machines: a `long` has four or eight bytes. -/
inductive Abi where
  | ilp32 | lp64
  deriving DecidableEq, Repr

namespace Abi

def sizeofLong : Abi → ℕ
  | ilp32 => 4
  | lp64 => 8

def sizeofTimeval (abi : Abi) : ℕ := 2 * abi.sizeofLong

/-- The number that a `long` holds, for its bits as a natural number. -/
def toLong (abi : Abi) (n : ℕ) : ℤ :=
  if n < 2 ^ (8 * abi.sizeofLong - 1) then n else n - 2 ^ (8 * abi.sizeofLong)

end Abi

structure Timeval where
  sec : ℤ
  usec : ℤ
  deriving DecidableEq, Repr

/-- `tv_sub`.  The members are taken as numbers of any size. -/
def tvSub (out in_ : Timeval) : Timeval :=
  let usec := out.usec - in_.usec
  if usec < 0 then ⟨out.sec - 1 - in_.sec, usec + 1000000⟩ else ⟨out.sec - in_.sec, usec⟩

/-! ### The two functions -/

def ipprotoIcmp : ℕ := 1

def icmpEchoreply : ℕ := 0

def icmp6EchoReply : ℕ := 129

/-- What is printed. -/
inductive Printed where
  | nothing
  /-- A reply: its length, sequence number, hop limit and round-trip time. -/
  | reply (len : ℤ) (seq : ℕ) (hlim : Option ℕ) (rtt : Timeval)
  /-- Some other message. -/
  | message (len : ℤ) (type code : ℕ)
  deriving DecidableEq, Repr

/-- The machine and the state of `ping` that the functions use. -/
structure Env where
  abi : Abi
  order : Order
  pid : UInt16
  verbose : Bool
  deriving DecidableEq, Repr

section Proc

variable (env : Env)

def ipTtl (i : ℕ) : Peek ℕ := Peek.byte (i + 8)

def icmpId (i : ℕ) : Peek ℕ := Peek.get env.order (i + 4) 2

def icmpSeq (i : ℕ) : Peek ℕ := Peek.get env.order (i + 6) 2

/-- The time that has passed since the time at `tvsend`. -/
def elapsed (tvrecv : Timeval) (tvsend : ℕ) : Peek Timeval := do
  let usec ← Peek.get env.order (tvsend + env.abi.sizeofLong) env.abi.sizeofLong
  let sec ← Peek.get env.order tvsend env.abi.sizeofLong
  return tvSub tvrecv ⟨env.abi.toLong sec, env.abi.toLong usec⟩

/-- A message that is no reply. -/
def other (len : ℤ) (icmp : ℕ) : Peek Printed :=
  if env.verbose then do
    let type ← icmpType icmp
    let code ← icmpCode icmp
    return .message len type code
  else return .nothing

/-- `proc_v4` for a message of `len` bytes that has come in at `tvrecv`. -/
def procV4 (tvrecv : Timeval) (len : ℕ) : Peek Printed := do
  let hlen1 ← hlen 0
  let p ← ipP 0
  if p ≠ ipprotoIcmp then return .nothing
  else
    let icmplen : ℤ := len - hlen1
    if icmplen < 8 then return .nothing
    else
      let type ← icmpType hlen1
      if type = icmpEchoreply then
        let id ← icmpId env hlen1
        if id ≠ env.pid.toNat then return .nothing
        else if icmplen < 16 then return .nothing
        else
          let rtt ← elapsed env tvrecv (hlen1 + 8)
          let seq ← icmpSeq env hlen1
          let ttl ← ipTtl 0
          return .reply icmplen seq (some ttl) rtt
      else other env icmplen hlen1

/-- `proc_v6`; the hop limit comes with the message as ancillary data. -/
def procV6 (hlim : Option ℕ) (tvrecv : Timeval) (len : ℕ) : Peek Printed :=
  if len < 8 then return .nothing
  else do
    let type ← icmpType 0
    if type = icmp6EchoReply then
      let id ← icmpId env 0
      if id ≠ env.pid.toNat then return .nothing
      else if len < 16 then return .nothing
      else
        let rtt ← elapsed env tvrecv 8
        let seq ← icmpSeq env 0
        return .reply len seq hlim rtt
    else other env len 0

def proc (v : Ver) (hlim : Option ℕ) : Timeval → ℕ → Peek Printed :=
  match v with
  | .v4 => procV4 env
  | .v6 => procV6 env hlim

end Proc

/-! ### What is read -/

/-- The type of a reply. -/
def echoReply : Ver → ℕ
  | .v4 => icmpEchoreply
  | .v6 => icmp6EchoReply

/-- A reply to a request of this process. -/
def Reply (env : Env) (v : Ver) (msg : List UInt8) : Prop :=
  (v = .v4 → Icmp.ipP msg 0 = ipprotoIcmp) ∧ Icmp.icmpType msg (v.icmp msg) = echoReply v ∧
    get env.order msg (v.icmp msg + 4) 2 = env.pid.toNat

/-- **A reply that ends in the middle of the time**: sixteen bytes of it are there, as the
functions ask, and not all of the time. -/
def Cut (env : Env) (v : Ver) (msg : List UInt8) : Prop :=
  Reply env v msg ∧ v.icmp msg + 16 ≤ msg.length ∧
    msg.length < v.icmp msg + 8 + env.abi.sizeofTimeval

instance (env : Env) (v : Ver) (msg : List UInt8) : Decidable (Reply env v msg) :=
  inferInstanceAs (Decidable (_ ∧ _))

instance (env : Env) (v : Ver) (msg : List UInt8) : Decidable (Cut env v msg) :=
  inferInstanceAs (Decidable (_ ∧ _))

section Within

variable {env : Env} {v : Ver} {hlim : Option ℕ} {tvrecv : Timeval} {i n : ℕ} {len : ℤ}
  {buf msg rest : List UInt8}

@[simp] theorem within_ipTtl : (ipTtl i).Within n buf ↔ i + 8 < n := Peek.within_byte

@[simp] theorem within_icmpId : (icmpId env i).Within n buf ↔ i + 4 + 2 ≤ n :=
  Peek.within_get (by omega)

@[simp] theorem within_icmpSeq : (icmpSeq env i).Within n buf ↔ i + 6 + 2 ≤ n :=
  Peek.within_get (by omega)

theorem within_elapsed :
    (elapsed env tvrecv i).Within n buf ↔ i + env.abi.sizeofTimeval ≤ n := by
  have hpos : 0 < env.abi.sizeofLong := by cases env.abi <;> decide
  simp only [elapsed, Peek.within_bind, Peek.within_get hpos, Peek.within_pure, and_true,
    Abi.sizeofTimeval]
  omega

theorem within_other (h : i + 1 < n) : (other env len i).Within n buf := by
  unfold other
  split
  · simp only [Peek.within_bind, within_icmpType, within_icmpCode, Peek.within_pure, and_true]
    omega
  · exact Peek.within_pure _

theorem procV4_within_iff (hlen : 20 ≤ msg.length) :
    (procV4 env tvrecv msg.length).Within msg.length msg ↔ ¬Cut env .v4 msg := by
  have hicmp : Ver.v4.icmp msg = Icmp.hlen msg 0 := rfl
  have hfixed : 0 < msg.length ∧ 0 + 9 < msg.length ∧ 0 + 8 < msg.length := by omega
  simp only [procV4, Peek.within_bind, within_hlen, run_hlen, within_ipP, run_ipP, hfixed,
    true_and]
  split
  · next hproto => exact iff_of_true (Peek.within_pure _) fun h => hproto (h.1.1 rfl)
  · next hproto =>
    split
    · next hshort =>
      refine iff_of_true (Peek.within_pure _) fun h => ?_
      have := h.2.1
      omega
    · next hlong =>
      simp only [Peek.within_bind, within_icmpType, run_icmpType]
      rw [and_iff_right (by omega)]
      split
      · next htype =>
        simp only [Peek.within_bind, within_icmpId]
        rw [and_iff_right (by omega)]
        split
        · next hid => exact iff_of_true (Peek.within_pure _) fun h => hid h.1.2.2
        · next hid =>
          split
          · next hcut =>
            refine iff_of_true (Peek.within_pure _) fun h => ?_
            have := h.2.1
            omega
          · next hdata =>
            have hreply : Reply env .v4 msg :=
              ⟨fun _ => not_not.mp hproto, htype, not_not.mp hid⟩
            have hrest : Icmp.hlen msg 0 + 6 + 2 ≤ msg.length := by omega
            simp only [Peek.within_bind, within_elapsed, within_icmpSeq, within_ipTtl, hrest,
              hfixed, Peek.within_pure, and_true, Cut, hreply, hicmp, true_and]
            omega
      · next htype =>
        exact iff_of_true (within_other (by omega)) fun h => htype h.1.2.1

theorem procV6_within_iff :
    (procV6 env hlim tvrecv msg.length).Within msg.length msg ↔ ¬Cut env .v6 msg := by
  have hicmp : Ver.v6.icmp msg = 0 := rfl
  unfold procV6
  split
  · next hshort =>
    refine iff_of_true (Peek.within_pure _) fun h => ?_
    have := h.2.1
    omega
  · next hlong =>
    simp only [Peek.within_bind, within_icmpType, run_icmpType]
    rw [and_iff_right (by omega)]
    split
    · next htype =>
      simp only [Peek.within_bind, within_icmpId]
      rw [and_iff_right (by omega)]
      split
      · next hid => exact iff_of_true (Peek.within_pure _) fun h => hid h.1.2.2
      · next hid =>
        split
        · next hcut =>
          refine iff_of_true (Peek.within_pure _) fun h => ?_
          have := h.2.1
          omega
        · next hdata =>
          have hreply : Reply env .v6 msg := ⟨fun h => (by cases h), htype, not_not.mp hid⟩
          have hrest : 0 + 6 + 2 ≤ msg.length := by omega
          simp only [Peek.within_bind, within_elapsed, within_icmpSeq, hrest, Peek.within_pure,
            and_true, Cut, hreply, hicmp, true_and]
          omega
    · next htype =>
      exact iff_of_true (within_other (by omega)) fun h => htype h.1.2.1

/-- A reply over IPv4 with `n` bytes of data. -/
def echo (n : ℕ) : List UInt8 :=
  List.replicate 9 0x45 ++ 1 :: List.replicate 10 0 ++ [0, 0, 0, 0, 7, 7, 0, 1] ++
    List.replicate n 0

end Within

end TcpIp.Ping
