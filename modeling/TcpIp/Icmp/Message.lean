import TcpIp.Lib.Bytes
import TcpIp.Lib.Peek

/-!
# ICMP messages

An ICMP error quotes the start of the datagram that caused it.  A raw IPv4 socket hands
a message over with its IP header in front, a raw ICMPv6 socket without; the quoted
datagram starts eight bytes behind the start of the ICMP header.

The functions here are the structure members of `<netinet/ip.h>`, `<netinet/ip6.h>` and
`<netinet/udp.h>` that the programs read, at a position of a buffer.  Those of `Reads` are
the same members, with the positions that are looked at.
-/

namespace TcpIp.Icmp

open Bytes

/-! ### Constants -/

def ipprotoUdp : ℕ := 17

def icmpUnreach : ℕ := 3
def icmpUnreachPort : ℕ := 3
def icmpUnreachNeedfrag : ℕ := 4
def icmpSourcequench : ℕ := 4
def icmpTimxceed : ℕ := 11
def icmpTimxceedIntrans : ℕ := 0

def icmp6DstUnreach : ℕ := 1
def icmp6DstUnreachNoport : ℕ := 4
def icmp6PacketTooBig : ℕ := 2
def icmp6TimeExceeded : ℕ := 3
def icmp6TimeExceedTransit : ℕ := 0

/-- The size of an IPv6 header. -/
def sizeofIp6 : ℕ := 40

/-! ### Members -/

/-- `ip_hl << 2`: the length of the IPv4 header at `i`. -/
def hlen (buf : List UInt8) (i : ℕ) : ℕ := byte buf i % 16 * 4

def ipP (buf : List UInt8) (i : ℕ) : ℕ := byte buf (i + 9)

def ipDst (buf : List UInt8) (i : ℕ) : List UInt8 := slice buf (i + 16) 4

def ip6Nxt (buf : List UInt8) (i : ℕ) : ℕ := byte buf (i + 6)

def ip6Dst (buf : List UInt8) (i : ℕ) : List UInt8 := slice buf (i + 24) 16

def uhSport (buf : List UInt8) (i : ℕ) : ℕ := get .big buf i 2

def uhDport (buf : List UInt8) (i : ℕ) : ℕ := get .big buf (i + 2) 2

/-- The type and the code of the ICMP message at `i`. -/
def icmpType (buf : List UInt8) (i : ℕ) : ℕ := byte buf i

@[inherit_doc icmpType]
def icmpCode (buf : List UInt8) (i : ℕ) : ℕ := byte buf (i + 1)

/-! ### Reading the members -/

namespace Reads

def hlen (i : ℕ) : Peek ℕ := do
  let b ← Peek.byte i
  return b % 16 * 4

def ipP (i : ℕ) : Peek ℕ := Peek.byte (i + 9)

def ipSrc (i : ℕ) : Peek (List UInt8) := Peek.slice (i + 12) 4

def ipDst (i : ℕ) : Peek (List UInt8) := Peek.slice (i + 16) 4

def ip6Nxt (i : ℕ) : Peek ℕ := Peek.byte (i + 6)

def ip6Src (i : ℕ) : Peek (List UInt8) := Peek.slice (i + 8) 16

def ip6Dst (i : ℕ) : Peek (List UInt8) := Peek.slice (i + 24) 16

def uhSport (i : ℕ) : Peek ℕ := Peek.get .big i 2

def uhDport (i : ℕ) : Peek ℕ := Peek.get .big (i + 2) 2

def icmpType (i : ℕ) : Peek ℕ := Peek.byte i

def icmpCode (i : ℕ) : Peek ℕ := Peek.byte (i + 1)

section Members

variable {buf : List UInt8} {i n : ℕ}

@[simp] theorem run_hlen : (hlen i).run buf = Icmp.hlen buf i := by
  simp [hlen, Icmp.hlen]

@[simp] theorem run_ipP : (ipP i).run buf = Icmp.ipP buf i := Peek.run_byte

@[simp] theorem run_ipDst : (ipDst i).run buf = Icmp.ipDst buf i := rfl

@[simp] theorem run_ip6Nxt : (ip6Nxt i).run buf = Icmp.ip6Nxt buf i := Peek.run_byte

@[simp] theorem run_ip6Dst : (ip6Dst i).run buf = Icmp.ip6Dst buf i := rfl

@[simp] theorem run_uhSport : (uhSport i).run buf = Icmp.uhSport buf i := rfl

@[simp] theorem run_uhDport : (uhDport i).run buf = Icmp.uhDport buf i := rfl

@[simp] theorem run_icmpType : (icmpType i).run buf = Icmp.icmpType buf i := Peek.run_byte

@[simp] theorem run_icmpCode : (icmpCode i).run buf = Icmp.icmpCode buf i := Peek.run_byte

@[simp] theorem within_hlen : (hlen i).Within n buf ↔ i < n := by
  simp [hlen]

@[simp] theorem within_ipP : (ipP i).Within n buf ↔ i + 9 < n := Peek.within_byte

@[simp] theorem within_ipSrc : (ipSrc i).Within n buf ↔ i + 12 + 4 ≤ n :=
  Peek.within_slice (by omega)

@[simp] theorem within_ipDst : (ipDst i).Within n buf ↔ i + 16 + 4 ≤ n :=
  Peek.within_slice (by omega)

@[simp] theorem within_ip6Nxt : (ip6Nxt i).Within n buf ↔ i + 6 < n := Peek.within_byte

@[simp] theorem within_ip6Src : (ip6Src i).Within n buf ↔ i + 8 + 16 ≤ n :=
  Peek.within_slice (by omega)

@[simp] theorem within_ip6Dst : (ip6Dst i).Within n buf ↔ i + 24 + 16 ≤ n :=
  Peek.within_slice (by omega)

@[simp] theorem within_uhSport : (uhSport i).Within n buf ↔ i + 2 ≤ n :=
  Peek.within_get (by omega)

@[simp] theorem within_uhDport : (uhDport i).Within n buf ↔ i + 2 + 2 ≤ n :=
  Peek.within_get (by omega)

@[simp] theorem within_icmpType : (icmpType i).Within n buf ↔ i < n := Peek.within_byte

@[simp] theorem within_icmpCode : (icmpCode i).Within n buf ↔ i + 1 < n := Peek.within_byte

end Members

end Reads

/-! ### What a message quotes -/

/-- The two versions of the protocol. -/
inductive Ver where
  | v4 | v6
  deriving DecidableEq, Repr

/-- Where the ICMP header starts. -/
def Ver.icmp (v : Ver) (buf : List UInt8) : ℕ :=
  match v with
  | .v4 => hlen buf 0
  | .v6 => 0

/-- Where the quoted IP header starts. -/
def Ver.ip (v : Ver) (buf : List UInt8) : ℕ := v.icmp buf + 8

/-- Where the protocol of the quoted datagram stands. -/
def Ver.protoAt (v : Ver) (buf : List UInt8) : ℕ :=
  match v with
  | .v4 => v.ip buf + 9
  | .v6 => v.ip buf + 6

/-- The protocol of the quoted datagram. -/
def Ver.proto (v : Ver) (buf : List UInt8) : ℕ := byte buf (v.protoAt buf)

/-- Where the quoted UDP header starts. -/
def Ver.udp (v : Ver) (buf : List UInt8) : ℕ :=
  match v with
  | .v4 => v.ip buf + hlen buf (v.ip buf)
  | .v6 => v.ip buf + sizeofIp6

/-! ### Bytes behind the message

A buffer may hold other bytes behind the message in it. -/

section Append

variable {msg rest : List UInt8} {i : ℕ} {v : Ver}

theorem hlen_append (h : i < msg.length) : hlen (msg ++ rest) i = hlen msg i := by
  rw [hlen, hlen, byte_append h]

theorem Ver.icmp_append (h : 0 < msg.length) : v.icmp (msg ++ rest) = v.icmp msg := by
  cases v with
  | v4 => exact hlen_append h
  | v6 => rfl

theorem Ver.ip_append (h : 0 < msg.length) : v.ip (msg ++ rest) = v.ip msg := by
  rw [Ver.ip, Ver.ip, Ver.icmp_append h]

theorem Ver.protoAt_append (h : 0 < msg.length) : v.protoAt (msg ++ rest) = v.protoAt msg := by
  cases v with
  | v4 => exact congrArg (· + 9) (Ver.ip_append h)
  | v6 => exact congrArg (· + 6) (Ver.ip_append h)

theorem Ver.ip_lt_protoAt (v : Ver) (buf : List UInt8) : v.ip buf < v.protoAt buf := by
  cases v with
  | v4 => simp [Ver.protoAt]
  | v6 => simp [Ver.protoAt]

/-- The protocol lies within the message. -/
theorem Ver.proto_append (h : v.protoAt msg < msg.length) :
    v.proto (msg ++ rest) = v.proto msg := by
  rw [Ver.proto, Ver.proto, Ver.protoAt_append (by omega), byte_append h]

/-- The length of the quoted IP header lies within the message. -/
theorem Ver.udp_append (h : v.ip msg < msg.length) : v.udp (msg ++ rest) = v.udp msg := by
  have hpos : 0 < msg.length := by omega
  cases v with
  | v4 => rw [Ver.udp, Ver.udp, Ver.ip_append hpos, hlen_append h]
  | v6 => rw [Ver.udp, Ver.udp, Ver.ip_append hpos]

end Append

end TcpIp.Icmp
