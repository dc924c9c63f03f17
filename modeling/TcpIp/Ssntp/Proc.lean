import TcpIp.Lib.Double
import TcpIp.Ping.Send

/-!
# The clock difference of `ssntp`

`ssntp` waits for NTP packets and prints for each how far the clock of this host is from the
clock of the sender.  The time of the sender is a fixed-point number: the seconds since 1900
modulo `2 ^ 32`, which will start again in 2036, and a fraction of a second in units of
`2 ^ -32`.  `sntp_proc` brings it to seconds since 1970 and to microseconds, the latter with
floating-point numbers, and subtracts it from the time of this host.  The result is cut to 32
bits and printed as a signed number.

A signed number that does not fit into its type is taken to wrap around.

## Main definitions

* `sntpProc` — the function, with what it prints.
* `useci`, `diff` — the fraction in microseconds, and the difference as a `timeval`.

## Main results

* `useci_eq` — the fraction is rounded down, and the floating-point numbers are exact.
* `diff_lp64` — with a `long` of eight bytes nothing wraps around in the difference.
* `sntpProc_exact` — what is printed is the difference in microseconds, for the times of
  every era, whenever it fits into 32 bits.
-/

namespace TcpIp.Ssntp

open Bytes Double Ping

/-! ### Packets -/

/-- The seconds from 1900 to 1970. -/
def jan1970 : ℕ := 2208988800

def versionMask : ℕ := 0x38

def modeMask : ℕ := 0x07

def modeClient : ℕ := 3

def sizeofNtpdata : ℕ := 48

/-- `struct l_fixedpt`: 64-bit fixed-point. -/
structure LFixedpt where
  intPart : ℕ
  fraction : ℕ
  deriving DecidableEq, Repr

/-- The last member of a `struct ntpdata`, in the byte order of the host. -/
def xmt (buf : List UInt8) : LFixedpt := ⟨Bytes.get .big buf 40 4, Bytes.get .big buf 44 4⟩

theorem fraction_lt (buf : List UInt8) : (xmt buf).fraction < 2 ^ 32 :=
  get_lt .big buf 44 4

/-! ### The function -/

/-- What is printed: the version, the mode and the stratum of a packet come first. -/
inductive Printed where
  | tooSmall (n : ℤ)
  | client (version mode strat : ℕ)
  | difference (version mode strat : ℕ) (usec : ℤ)
  deriving DecidableEq, Repr

/-- A number as a `long`. -/
def long (abi : Abi) (x : ℤ) : ℤ := x.bmod (2 ^ (8 * abi.sizeofLong))

/-- The fraction as microseconds. -/
def useci (r : Rounding) (fraction : ℕ) : ℤ :=
  let usecf := r.fl fraction
  let usecf := r.fl (usecf / 4294967296)
  ⌊r.fl (usecf * 1000000)⌋

def diff (abi : Abi) (now : Timeval) (nsec useci : ℤ) : Timeval :=
  let sec := long abi (now.sec - nsec)
  let usec := long abi (now.usec - useci)
  if usec < 0 then ⟨long abi (sec - 1), long abi (usec + 1000000)⟩ else ⟨sec, usec⟩

/-- `sntp_proc`, with the time `*nowptr`. -/
def sntpProc (r : Rounding) (abi : Abi) (buf : List UInt8) (n : ℤ) (now : Timeval) : Printed :=
  if n < sizeofNtpdata then .tooSmall n
  else
    let version := (byte buf 0 &&& versionMask) >>> 3
    let mode := byte buf 0 &&& modeMask
    let strat := byte buf 1
    if mode = modeClient then .client version mode strat
    else
      let nsec := asUnsigned 32 ((xmt buf).intPart - jan1970)
      let d := diff abi now nsec (useci r (xmt buf).fraction)
      let usec := asUnsigned 32 (long abi (long abi (d.sec * 1000000) + d.usec))
      -- an unsigned number that is printed as a signed one
      .difference version mode strat (usec.bmod (2 ^ 32))

/-! ### The fraction -/

variable {r : Rounding} {abi : Abi} {f : ℕ} {now : Timeval} {nsec u x : ℤ}

/-- **The fraction in microseconds** is rounded down only once. -/
theorem useci_eq (r : Rounding) (hf : f < 2 ^ 32) : useci r f = f * 1000000 / 2 ^ 32 := by
  have hint : r.fl f = f := r.fl_eq (representable_natCast (by omega))
  have hdiv : r.fl ((f : ℚ) / 4294967296) = f / 4294967296 := by
    have h := (representable_natCast (show f < 2 ^ 53 by omega)).div_two_pow 32
    norm_num at h
    exact r.fl_eq h
  have hmul : r.fl ((f : ℚ) / 4294967296 * 1000000) = (f * 1000000 : ℕ) / 4294967296 := by
    have h := (representable_natCast (show f * 1000000 < 2 ^ 53 by omega)).div_two_pow 32
    norm_num at h
    rw [div_mul_eq_mul_div]
    push_cast
    exact r.fl_eq h
  have hfloor := Rat.floor_intCast_div_natCast (f * 1000000 : ℕ) 4294967296
  simp only [useci, hint, hdiv, hmul]
  push_cast at hfloor ⊢
  exact hfloor

/-! ### The difference -/

/-- The low bits of a `long` are those of the number. -/
theorem long_emod (abi : Abi) (x : ℤ) : long abi x % 2 ^ 32 = x % 2 ^ 32 := by
  have hdvd : (2 ^ 32 : ℤ) ∣ ((2 ^ (8 * abi.sizeofLong) : ℕ) : ℤ) := by cases abi <;> decide
  rw [long, ← Int.emod_emod_of_dvd _ hdvd, Int.bmod_emod, Int.emod_emod_of_dvd _ hdvd]

theorem long_eq (h : abi.IsLong x) : long abi x = x := by
  obtain ⟨hlow, hhigh⟩ := h
  cases abi <;> exact Int.bmod_eq_of_le hlow hhigh

theorem long_usec (hu : -1000000 < x ∧ x < 1000000) : long abi x = x := by
  refine long_eq ?_
  cases abi <;> simp only [Abi.IsLong, Abi.sizeofLong] <;> omega

theorem long_lp64 (h : -2 ^ 33 < x ∧ x < 2 ^ 33) : long .lp64 x = x := by
  refine long_eq ?_
  simp only [Abi.IsLong, Abi.sizeofLong]
  omega

section Difference

variable (hnow : 0 ≤ now.usec ∧ now.usec < 1000000) (hu : 0 ≤ u ∧ u < 1000000)

include hnow hu

/-- The two cases, with and without a borrow. -/
theorem diff_eq : diff abi now nsec u =
    if now.usec < u then ⟨long abi (long abi (now.sec - nsec) - 1), now.usec - u + 1000000⟩
    else ⟨long abi (now.sec - nsec), now.usec - u⟩ := by
  have husec : long abi (now.usec - u) = now.usec - u := long_usec (by omega)
  unfold diff
  rw [husec]
  by_cases hlt : now.usec < u
  · rw [if_pos hlt, if_pos (by omega), long_usec (x := now.usec - u + 1000000) (by omega)]
  · rw [if_neg hlt, if_neg (by omega)]

/-- **The borrow is right**, up to multiples of `2 ^ 32`. -/
theorem micros_diff : (diff abi now nsec u).micros % 2 ^ 32 =
    (now.micros - (nsec * 1000000 + u)) % 2 ^ 32 := by
  have hsec := long_emod abi (now.sec - nsec)
  rw [diff_eq hnow hu]
  split
  · have hborrow := long_emod abi (long abi (now.sec - nsec) - 1)
    simp only [Timeval.micros]
    omega
  · simp only [Timeval.micros]
    omega

/-- With a `long` of eight bytes nothing wraps around. -/
theorem diff_lp64 (hsec : 0 ≤ now.sec ∧ now.sec < 2 ^ 32) (hnsec : 0 ≤ nsec ∧ nsec < 2 ^ 32) :
    diff .lp64 now nsec u = tvSub now ⟨nsec, u⟩ ∧
      Abi.lp64.IsLong ((diff .lp64 now nsec u).sec * 1000000) ∧
      Abi.lp64.IsLong (diff .lp64 now nsec u).micros := by
  have hlong := long_lp64 (x := now.sec - nsec) (by omega)
  have hborrow := long_lp64 (x := now.sec - nsec - 1) (by omega)
  have hdiff : diff .lp64 now nsec u = tvSub now ⟨nsec, u⟩ := by
    rw [diff_eq hnow hu, hlong, hborrow, tvSub]
    by_cases hlt : now.usec < u
    · rw [if_pos hlt, if_pos (by simp only; omega), sub_right_comm]
    · rw [if_neg hlt, if_neg (by simp only; omega)]
  refine ⟨hdiff, ?_⟩
  rw [hdiff, tvSub]
  split <;> simp only [Timeval.micros, Abi.IsLong, Abi.sizeofLong] <;> omega

end Difference

/-! ### What is printed -/

/-- A difference that fits into 32 bits is printed as it is. -/
theorem printed_eq {d : Timeval} {D : ℤ} (hd : d.micros % 2 ^ 32 = D % 2 ^ 32)
    (hD : |D| < 2 ^ 31) :
    (asUnsigned 32 (long abi (long abi (d.sec * 1000000) + d.usec))).bmod (2 ^ 32) = D := by
  have hprod := long_emod abi (d.sec * 1000000)
  have hsum := long_emod abi (long abi (d.sec * 1000000) + d.usec)
  have hbits : asUnsigned 32 (long abi (long abi (d.sec * 1000000) + d.usec)) =
      D % ((2 ^ 32 : ℕ) : ℤ) := by
    simp only [Timeval.micros] at hd
    rw [asUnsigned, hsum]
    omega
  rw [abs_lt] at hD
  rw [hbits, Int.emod_bmod, Int.bmod_eq_of_le (by omega) (by omega)]

/-- **The clock difference is exact.**  The packet was sent `secs` seconds after 1970, in any
era, and a fraction. -/
theorem sntpProc_exact (r : Rounding) (abi : Abi) {buf : List UInt8} {n : ℤ}
    (hn : sizeofNtpdata ≤ n) (hmode : byte buf 0 &&& modeMask ≠ modeClient) {secs sec usec : ℤ}
    (hsecs : (xmt buf).intPart = (secs + jan1970) % 2 ^ 32)
    (husec : 0 ≤ usec ∧ usec < 1000000)
    (hfits : |(Timeval.mk sec usec).micros -
      (Timeval.mk secs ((xmt buf).fraction * 1000000 / 2 ^ 32)).micros| < 2 ^ 31) :
    sntpProc r abi buf n ⟨long abi sec, usec⟩ =
      .difference ((byte buf 0 &&& versionMask) >>> 3) (byte buf 0 &&& modeMask) (byte buf 1)
        ((Timeval.mk sec usec).micros -
          (Timeval.mk secs ((xmt buf).fraction * 1000000 / 2 ^ 32)).micros) := by
  have hlt := fraction_lt buf
  have hd := @micros_diff abi ⟨long abi sec, usec⟩ (asUnsigned 32 ((xmt buf).intPart - jan1970))
    ((xmt buf).fraction * 1000000 / 2 ^ 32) husec (by omega)
  -- the seconds of both clocks are known up to multiples of `2 ^ 32` only
  have hmod : (diff abi ⟨long abi sec, usec⟩ (asUnsigned 32 ((xmt buf).intPart - jan1970))
      ((xmt buf).fraction * 1000000 / 2 ^ 32)).micros % 2 ^ 32 =
      ((Timeval.mk sec usec).micros -
        (Timeval.mk secs ((xmt buf).fraction * 1000000 / 2 ^ 32)).micros) % 2 ^ 32 := by
    have hsec := long_emod abi sec
    rw [hd]
    simp only [Timeval.micros, asUnsigned, hsecs, jan1970]
    omega
  simp only [sntpProc, if_neg (not_lt.mpr hn), if_neg hmode, useci_eq r hlt,
    printed_eq hmod hfits]

/-- A packet that is sent half a second after the seconds have started again. -/
def secondEra : List UInt8 :=
  0x24 :: 1 :: List.replicate 38 0 ++ [0, 0, 0, 0, 0x80, 0, 0, 0]

theorem sntpProc_exact_secondEra :
    sntpProc .nearest .lp64 secondEra 48 ⟨long .lp64 2085978495, 900000⟩ =
      .difference 4 4 1 (-600000) := by
  have h := @sntpProc_exact .nearest .lp64 secondEra 48 (by decide) (by decide)
    2085978496 2085978495 900000 (by decide) (by decide) (by decide)
  exact h.trans (by decide)

end TcpIp.Ssntp
