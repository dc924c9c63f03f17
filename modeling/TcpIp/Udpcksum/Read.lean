import TcpIp.Free.InCksum
import TcpIp.Icmp.Message
import TcpIp.Lib.Buffer

/-!
# Reading a UDP datagram

`udp_check` checks a captured packet: its IP header may have options, and its checksum is
taken over all of it.  It returns the packet as a `struct udpiphdr`, in which the UDP header
stands behind an IP header without options, and `test_udp` looks for the checksum there.

## Main definitions

* `udpCheck` — `udp_check`; the value is the packet as the function leaves it.
* `testUdp` — what `test_udp` makes of the packet.

## Main results

* `udpCheck_eq_ok` — what is known of a packet that is accepted.
* `testUdp_inspects_iff` — `test_udp` looks at the checksum of the packet **exactly if**
  there are no options.
-/

namespace TcpIp.Udpcksum

open Buffer Bytes Free
open Icmp (hlen ipP)

/-- How `udp_check` gives up. -/
inductive Quit where
  | len (len : ℤ)
  | version (v : ℕ)
  | headerLength (hl : ℕ)
  | short (len : ℤ) (hlen : ℕ)
  | checksum
  | notUdp
  deriving DecidableEq, Repr

/-- `udp_check`.  A length is compared with sizes, of `bits` bits. -/
def udpCheck (bits : ℕ) (o : Order) (ptr : List UInt8) (len : ℤ) : Except Quit (List UInt8) :=
  if asUnsigned bits len < 20 + 8 then .error (.len len)
  else if byte ptr 0 / 16 ≠ 4 then .error (.version (byte ptr 0 / 16))
  else if hlen ptr 0 < 20 then .error (.headerLength (byte ptr 0 % 16))
  else if asUnsigned bits len < hlen ptr 0 + 8 then .error (.short len (hlen ptr 0))
  else
    let sum := inCksum o (ptr.take (hlen ptr 0))
    -- `ip_sum` is assigned to
    let ip := writeAt ptr 10 (o.enc 2 sum.toNat)
    if sum ≠ 0 then .error .checksum
    else if ipP ip 0 = Icmp.ipprotoUdp then .ok ip
    else .error .notUdp

/-- What `test_udp` prints. -/
structure Report where
  /-- Whether the checksums are said to be on. -/
  on : Bool
  /-- The checksum, if `verbose` is set. -/
  sum : Option ℕ
  deriving DecidableEq, Repr

/-- `test_udp` behind `udp_read`: `ui_sum` stands 26 bytes behind the start. -/
def testUdp (o : Order) (verbose : Bool) : Peek Report := do
  let uiSum ← Peek.get o 26 2
  if verbose then
    let shown ← Peek.get .big 26 2
    return ⟨uiSum != 0, some shown⟩
  else return ⟨uiSum != 0, none⟩

/-- Where the checksum of the UDP header of a packet stands. -/
def udpSumAt (ptr : List UInt8) : ℕ := hlen ptr 0 + 6

section Check

variable {bits : ℕ} {o : Order} {verbose : Bool} {ptr ip : List UInt8}

/-- **A packet that is accepted.** -/
theorem udpCheck_eq_ok (h : udpCheck bits o ptr ptr.length = .ok ip) :
    20 ≤ hlen ptr 0 ∧ hlen ptr 0 + 8 ≤ ptr.length ∧ inCksum o (ptr.take (hlen ptr 0)) = 0 ∧
      ipP ip 0 = Icmp.ipprotoUdp ∧ ip = writeAt ptr 10 [0, 0] := by
  have hle : asUnsigned bits ptr.length ≤ ptr.length := asUnsigned_le (by omega)
  simp only [udpCheck] at h
  split_ifs at h with hmin hver hhl hshort hsum hudp
  rw [Except.ok.injEq] at h
  have hzero : inCksum o (ptr.take (hlen ptr 0)) = 0 := not_not.mp hsum
  have hstored : o.enc 2 (inCksum o (ptr.take (hlen ptr 0))).toNat = [0, 0] := by
    rw [hzero]
    cases o <;> rfl
  refine ⟨by omega, by omega, hzero, by rw [← h]; exact hudp, ?_⟩
  rw [← h, hstored]

/-- The UDP header is as it was captured. -/
theorem get_of_udpCheck (h : udpCheck bits o ptr ptr.length = .ok ip) {i w : ℕ} (hi : 20 ≤ i) :
    get o ip i w = get o ptr i w := by
  obtain ⟨hhl, hroom, -, -, rfl⟩ := udpCheck_eq_ok h
  unfold Bytes.get slice
  rw [drop_writeAt (by omega) (by simp; omega)]

theorem mem_touched_testUdp {i : ℕ} :
    i ∈ (testUdp o verbose).touched ip ↔ i = 26 ∨ i = 27 := by
  cases verbose with
  | false =>
    have htouched : (testUdp o false).touched ip = [26, 27] := rfl
    simp [htouched]
  | true =>
    have htouched : (testUdp o true).touched ip = [26, 27, 26, 27] := rfl
    simp only [htouched, List.mem_cons, List.not_mem_nil, or_false]
    omega

theorem run_testUdp_on : ((testUdp o verbose).run ip).on = (get o ip 26 2 != 0) := by
  cases verbose <;> rfl

/-- **`test_udp` looks at the checksum of an accepted packet exactly if it has no options.** -/
theorem testUdp_inspects_iff (h : udpCheck bits o ptr ptr.length = .ok ip) :
    ((∀ i, i ∈ (testUdp o verbose).touched ip ↔ i = udpSumAt ptr ∨ i = udpSumAt ptr + 1) ∧
      ((testUdp o verbose).run ip).on = (get o ptr (udpSumAt ptr) 2 != 0)) ↔
    hlen ptr 0 = 20 := by
  constructor
  · rintro ⟨htouched, -⟩
    have hfirst := (htouched 26).mp (mem_touched_testUdp.mpr (.inl rfl))
    have hsecond := (htouched 27).mp (mem_touched_testUdp.mpr (.inr rfl))
    unfold udpSumAt at hfirst hsecond
    omega
  · intro hplain
    have hat : udpSumAt ptr = 26 := by rw [udpSumAt, hplain]
    rw [hat, run_testUdp_on, get_of_udpCheck h (by omega)]
    exact ⟨fun i => mem_touched_testUdp, rfl⟩

/-- A packet with `opts` bytes of options, the ports 53 and 1024 and no UDP checksum; `sum` is
the checksum of its IP header. -/
def reply (hl : UInt8) (sum opts : List UInt8) : List UInt8 :=
  [hl, 0, 0, 32, 0, 0, 0, 0, 64, 17] ++ sum ++ [127, 0, 0, 1, 127, 0, 0, 1] ++ opts ++
    [0, 53, 4, 0, 0, 8, 0, 0]

theorem testUdp_inspects_plain :
    udpCheck 64 .little (reply 0x45 [0x7c, 0xcb] []) 28 = .ok (reply 0x45 [0, 0] []) ∧
    ((testUdp .little false).run (reply 0x45 [0, 0] [])).on = false :=
  ⟨by decide, ((@testUdp_inspects_iff 64 .little false (reply 0x45 [0x7c, 0xcb] [])
    (reply 0x45 [0, 0] []) (by decide)).mpr (by decide)).2⟩

/-- A packet with four bytes of options and no UDP checksum is accepted, and is said to have
one: its destination port is taken for it. -/
theorem testUdp_misled :
    udpCheck 64 .little (reply 0x46 [0x7b, 0xcb] [0, 0, 0, 0]) 32 =
      .ok (reply 0x46 [0, 0] [0, 0, 0, 0]) ∧
    get .little (reply 0x46 [0x7b, 0xcb] [0, 0, 0, 0]) 30 2 = 0 ∧
    (testUdp .little true).run (reply 0x46 [0, 0] [0, 0, 0, 0]) = ⟨true, some 1024⟩ := by
  decide

end Check

end TcpIp.Udpcksum
