import Mathlib.Algebra.Group.Nat.Defs
import Mathlib.Data.Rat.Defs
import Mathlib.Tactic.Common

/-!
# Round-trip times

The functions of `lib/rtt.c`, with rational numbers in place of `float`, and the header
that `rtt/dg_send_recv.c` puts in front of every datagram: a sequence number and the
time of transmission.

The clock is a number of microseconds.  A timestamp counts milliseconds since the
`rtt_base` in 32 bits, all operations being modulo `2 ^ 32`; so the base is lost in the
difference of two timestamps, and a difference that fits is the right one even if one
of the timestamps has wrapped.

## Main definitions

* `RttInfo`, `rttInit`, `rttTs`, `rttStart`, `rttStop`, `rttTimeout` — `rtt.c`.
* `Hdr`, `Hdr.encode`, `decode` — the header and its bytes.

## Main results

* `rttTs_sub` — the difference of two timestamps.
* `decode_encode` — the header comes back.
-/

namespace TcpIp
namespace Rtt

/-! ### Estimators -/

/-- `RTT_RXTMIN`. -/
def rttRxtmin : ℚ := 2

/-- `RTT_RXTMAX`. -/
def rttRxtmax : ℚ := 60

/-- `RTT_MAXNREXMT`. -/
def rttMaxnrexmt : ℕ := 3

/-- `struct rtt_info`. -/
structure RttInfo where
  rttRtt : ℚ
  rttSrtt : ℚ
  rttRttvar : ℚ
  rttRto : ℚ
  rttNrexmt : ℕ
  rttBase : UInt32

/-- `RTT_RTOCALC`. -/
def RttInfo.rtoCalc (ptr : RttInfo) : ℚ := ptr.rttSrtt + 4 * ptr.rttRttvar

def rttMinmax (rto : ℚ) : ℚ :=
  if rto < rttRxtmin then rttRxtmin else if rttRxtmax < rto then rttRxtmax else rto

/-- `rtt_init`, at the time `now`. -/
def rttInit (ptr : RttInfo) (now : ℕ) : RttInfo :=
  let ptr := { ptr with
    rttBase := UInt32.ofNat (now / 1000000), rttRtt := 0, rttSrtt := 0, rttRttvar := 3 / 4 }
  { ptr with rttRto := rttMinmax ptr.rtoCalc }

/-- `rtt_ts`, for this `rtt_base` and at the time `now`. -/
def rttTs (base : UInt32) (now : ℕ) : UInt32 :=
  (UInt32.ofNat (now / 1000000) - base) * 1000 + UInt32.ofNat (now % 1000000 / 1000)

def rttNewpack (ptr : RttInfo) : RttInfo := { ptr with rttNrexmt := 0 }

/-- `rtt_start`; the conversion to `int` drops the fraction. -/
def rttStart (ptr : RttInfo) : ℤ :=
  let rto := ptr.rttRto + 1 / 2
  rto.num.tdiv rto.den

def rttStop (ptr : RttInfo) (ms : UInt32) : RttInfo :=
  let rtt : ℚ := ms.toNat / 1000
  let delta := rtt - ptr.rttSrtt
  let ptr := { ptr with
    rttRtt := rtt
    rttSrtt := ptr.rttSrtt + delta / 8
    rttRttvar := ptr.rttRttvar + ((if delta < 0 then -delta else delta) - ptr.rttRttvar) / 4 }
  { ptr with rttRto := rttMinmax ptr.rtoCalc }

/-- `rtt_timeout`: the new values, and whether it is time to give up. -/
def rttTimeout (ptr : RttInfo) : RttInfo × Bool :=
  let ptr := { ptr with rttRto := ptr.rttRto * 2, rttNrexmt := ptr.rttNrexmt + 1 }
  (ptr, decide (rttMaxnrexmt < ptr.rttNrexmt))

@[simp] theorem rttBase_rttNewpack (ptr : RttInfo) : (rttNewpack ptr).rttBase = ptr.rttBase := rfl

@[simp] theorem rttBase_rttStop (ptr : RttInfo) (ms : UInt32) :
    (rttStop ptr ms).rttBase = ptr.rttBase := rfl

@[simp] theorem rttBase_rttTimeout (ptr : RttInfo) :
    (rttTimeout ptr).1.rttBase = ptr.rttBase := rfl

/-! ### Timestamps -/

/-- The millisecond clock. -/
def ms (now : ℕ) : ℕ := now / 1000

/-- A timestamp is the millisecond clock, shifted by the base. -/
theorem rttTs_eq (base : UInt32) (now : ℕ) :
    rttTs base now = UInt32.ofNat (ms now) - base * 1000 := by
  have hms : ms now = now / 1000000 * 1000 + now % 1000000 / 1000 := by
    unfold ms
    omega
  rw [hms, rttTs, UInt32.ofNat_add, UInt32.ofNat_mul]
  simp only [UInt32.sub_mul]
  have hcast : UInt32.ofNat 1000 = 1000 := rfl
  rw [hcast, UInt32.sub_eq_add_neg, UInt32.sub_eq_add_neg, UInt32.add_assoc, UInt32.add_assoc]
  congr 1
  exact UInt32.add_comm _ _

/-- **The base is lost in the difference of two timestamps.** -/
theorem rttTs_sub (base : UInt32) (now sent : ℕ) :
    rttTs base now - rttTs base sent = UInt32.ofNat (ms now) - UInt32.ofNat (ms sent) := by
  rw [rttTs_eq, rttTs_eq]
  simp only [UInt32.sub_eq_add_neg, UInt32.neg_add, UInt32.neg_neg]
  rw [UInt32.add_assoc, UInt32.add_comm (-(base * 1000)), UInt32.add_assoc,
    UInt32.add_right_neg, UInt32.add_zero]

/-- A difference that fits into 32 bits is exact. -/
theorem toNat_ofNat_sub {a b : ℕ} (hle : b ≤ a) (hlt : a - b < 2 ^ 32) :
    (UInt32.ofNat a - UInt32.ofNat b).toNat = a - b := by
  rw [← UInt32.ofNat_sub hle, UInt32.toNat_ofNat']
  exact Nat.mod_eq_of_lt hlt

theorem ms_mono {a b : ℕ} (h : a ≤ b) : ms a ≤ ms b := Nat.div_le_div_right h

/-! ### The header -/

/-- A word of memory, least significant byte first. -/
def wordBytes (x : UInt32) : List UInt8 :=
  [UInt8.ofNat (x.toNat % 256), UInt8.ofNat (x.toNat / 256 % 256),
   UInt8.ofNat (x.toNat / 65536 % 256), UInt8.ofNat (x.toNat / 16777216)]

/-- The word in four bytes of memory. -/
def wordOf : List UInt8 → UInt32
  | [a, b, c, d] =>
    UInt32.ofNat (a.toNat + 256 * b.toNat + 65536 * c.toNat + 16777216 * d.toNat)
  | _ => 0

@[simp] theorem wordOf_wordBytes (x : UInt32) : wordOf (wordBytes x) = x := by
  have hlt : x.toNat < 2 ^ 32 := x.toNat_lt
  apply UInt32.toNat_inj.mp
  simp only [wordBytes, wordOf, UInt32.toNat_ofNat', UInt8.toNat_ofNat']
  omega

/-- `struct hdr`. -/
structure Hdr where
  seq : UInt32
  ts : UInt32
  deriving DecidableEq, Repr

/-- `sizeof(struct hdr)`. -/
def hdrLen : ℕ := 8

/-- The header in memory. -/
def Hdr.encode (h : Hdr) : List UInt8 := wordBytes h.seq ++ wordBytes h.ts

/-- The header read from memory. -/
def decode (mem : List UInt8) : Hdr := ⟨wordOf (mem.take 4), wordOf ((mem.drop 4).take 4)⟩

@[simp] theorem length_encode (h : Hdr) : h.encode.length = hdrLen := rfl

@[simp] theorem decode_encode (h : Hdr) : decode h.encode = h := by
  have hseq : h.encode.take 4 = wordBytes h.seq := rfl
  have hts : (h.encode.drop 4).take 4 = wordBytes h.ts := rfl
  rw [decode, hseq, hts, wordOf_wordBytes, wordOf_wordBytes]

end Rtt
end TcpIp
