import Mathlib.Algebra.Group.Nat.Defs
import TcpIp.Kernel
import TcpIp.Lib.Buffer
import TcpIp.Lib.CallLoop

/-!
# Whole transfers

`writen` and `readn` (`lib/writen.c`, `lib/readn.c`) call `write` and `read` until all
of `n` bytes have been transferred.  The number of bytes left is a `size_t`, the result of
the system call a `ssize_t`; both are words of 64 bits here, and a test is signed or not
as the type of the variable is.  Pointers are offsets from the start of the caller's
memory, also in words.

For `writen` we record the offsets of the bytes the kernel has accepted, in the order in
which it has; for `readn` the bytes it has handed over, and whether a `read` has found
the end of file.

## Main definitions

* `Area` — the memory of the caller.
* `writen`, `readn` — the functions of the source, as loops around a call.
* `Written`, `Filled` — their invariants.

## Main results

* `transfer_exact` — what has been transferred when they return.
-/

namespace TcpIp.Io

open Buffer CallLoop

/-- `SSIZE_MAX`. -/
def ssizeMax : ℕ := 2 ^ 63 - 1

/-- Memory of the caller: an object, which is no larger than a `ptrdiff_t` can tell, and
the number of its bytes to be transferred. -/
structure Area where
  mem : List UInt8
  n : BitVec 64
  fits : n.toNat ≤ mem.length
  small : mem.length ≤ ssizeMax

theorem Area.n_le (a : Area) : a.n.toNat ≤ ssizeMax := Nat.le_trans a.fits a.small

/-! ### Words -/

/-- `k` offsets, from `ptr` on. -/
def span (ptr : BitVec 64) (k : ℕ) : List (BitVec 64) :=
  (List.range k).map fun i => ptr + BitVec.ofNat 64 i

@[simp] theorem length_span (ptr : BitVec 64) (k : ℕ) : (span ptr k).length = k := by
  simp [span]

@[simp] theorem span_zero (ptr : BitVec 64) : span ptr 0 = [] := rfl

/-- A range of offsets is split anywhere. -/
theorem span_add (ptr : BitVec 64) (j k : ℕ) :
    span ptr (j + k) = span ptr j ++ span (ptr + BitVec.ofNat 64 j) k := by
  simp only [span, List.range_add, List.map_append, List.map_map]
  congr 1
  refine List.map_congr_left fun i _ => ?_
  rw [Function.comp_apply, BitVec.ofNat_add, BitVec.add_assoc]

theorem toNat_ofNat_of_le {k : ℕ} (h : k ≤ ssizeMax) : (BitVec.ofNat 64 k).toNat = k := by
  unfold ssizeMax at h
  rw [BitVec.toNat_ofNat, Nat.mod_eq_of_lt (by omega)]

/-- A count as a `ssize_t`. -/
theorem toInt_of_le {x : BitVec 64} (h : x.toNat ≤ ssizeMax) : x.toInt = x.toNat := by
  unfold ssizeMax at h
  rw [BitVec.toInt_eq_toNat_of_lt (by omega)]

theorem toNat_sub_ofNat {x : BitVec 64} {k : ℕ} (hk : k ≤ x.toNat) :
    (x - BitVec.ofNat 64 k).toNat = x.toNat - k := by
  have hlt := x.isLt
  rw [BitVec.toNat_sub, BitVec.toNat_ofNat]
  omega

/-! ### Writing -/

/-- The state of `writen`. -/
structure WState where
  nleft : BitVec 64
  ptr : BitVec 64
  /-- The offsets of the bytes accepted by the kernel. -/
  accepted : List (BitVec 64)
  deriving DecidableEq, Repr

/-- The number of bytes of a transfer of up to `k` bytes when `nbyte` are asked for. -/
def count (k : ℕ) (nbyte : BitVec 64) : ℕ := min k (min nbyte.toNat ssizeMax)

/-- What `write(fd, ptr, nbyte)` returns when the kernel accepts up to `k` bytes, or
fails. -/
def writeRet (nbyte : BitVec 64) : Except Errno ℕ → BitVec 64
  | .ok k => BitVec.ofNat 64 (count k nbyte)
  | .error _ => -1#64

/-- The bytes it accepts. -/
def writeAccepts (ptr nbyte : BitVec 64) : Except Errno ℕ → List (BitVec 64)
  | .ok k => span ptr (count k nbyte)
  | .error _ => []

/-- `errno` is `EINTR`. -/
def interrupted : Except Errno ℕ → Bool
  | .error .eintr => true
  | _ => false

/-- The bytes accepted are recorded. -/
def WState.write (s : WState) (res : Except Errno ℕ) : WState :=
  { s with accepted := s.accepted ++ writeAccepts s.ptr s.nleft res }

/-- The end of the loop body. -/
def WState.advance (s : WState) (nwritten : BitVec 64) : WState :=
  { s with nleft := s.nleft - nwritten, ptr := s.ptr + nwritten }

/-- The loop of `writen`. -/
def writenLoop (n : BitVec 64) : Loop WState (Except Errno ℕ) ℤ where
  exit s := if s.nleft = 0#64 then some n.toInt else none
  body s res :=
    let nwritten := writeRet s.nleft res
    let s := s.write res
    if nwritten.toInt ≤ 0 then
      if nwritten.toInt < 0 ∧ interrupted res then (none, s.advance 0#64)
      else (some (-1), s)
    else (none, s.advance nwritten)

/-- `writen(fd, vptr, n)`, with these results of `write`. -/
def writen (n : BitVec 64) (results : List (Except Errno ℕ)) : Out WState ℤ :=
  (writenLoop n).run results ⟨n, 0#64, []⟩

/-- The invariant of `writen`: what has been accepted are the bytes in front of `ptr`. -/
structure Written (n : BitVec 64) (s : WState) : Prop where
  accepted_eq : s.accepted = span 0#64 s.accepted.length
  ptr_eq : s.ptr = BitVec.ofNat 64 s.accepted.length
  nleft_eq : s.nleft.toNat + s.accepted.length = n.toNat

theorem written_start (n : BitVec 64) : Written n ⟨n, 0#64, []⟩ := ⟨rfl, rfl, rfl⟩

/-- A result of `write` that ends `writen`. -/
def Stops (res : Except Errno ℕ) : Prop := res = .ok 0 ∨ ∃ e, res = .error e ∧ e ≠ .eintr

section

variable {n : BitVec 64} {s s' : WState} {res : Except Errno ℕ}

theorem count_le (k : ℕ) (nbyte : BitVec 64) : count k nbyte ≤ ssizeMax :=
  Nat.le_trans (Nat.min_le_right _ _) (Nat.min_le_right _ _)

theorem count_le_nbyte (k : ℕ) (nbyte : BitVec 64) : count k nbyte ≤ nbyte.toNat :=
  Nat.le_trans (Nat.min_le_right _ _) (Nat.min_le_left _ _)

/-- Some bytes are transferred if some are asked for and `k` is not zero. -/
theorem count_eq_zero_iff {k : ℕ} {nbyte : BitVec 64} (h : nbyte ≠ 0#64) :
    count k nbyte = 0 ↔ k = 0 := by
  have hpos : nbyte.toNat ≠ 0 := fun hzero => h (BitVec.eq_of_toNat_eq hzero)
  unfold count ssizeMax
  omega

/-- The state after the kernel has accepted `j` bytes. -/
def WState.accept (s : WState) (j : ℕ) : WState :=
  { nleft := s.nleft - BitVec.ofNat 64 j
    ptr := s.ptr + BitVec.ofNat 64 j
    accepted := s.accepted ++ span s.ptr j }

/-- What one round of the loop of `writen` does. -/
inductive WriteRound (s : WState) : Except Errno ℕ → Option ℤ × WState → Prop
  | accept {k : ℕ} (hpos : 0 < count k s.nleft) :
    WriteRound s (.ok k) (none, s.accept (count k s.nleft))
  | again : WriteRound s (.error .eintr) (none, s)
  | stop {res : Except Errno ℕ} (hstops : Stops res) : WriteRound s res (some (-1), s)

theorem writeRound (n : BitVec 64) (hgo : s.nleft ≠ 0#64) (res : Except Errno ℕ) :
    WriteRound s res ((writenLoop n).body s res) := by
  cases res with
  | ok k =>
    have hle := count_le k s.nleft
    have hint : (BitVec.ofNat 64 (count k s.nleft)).toInt = count k s.nleft := by
      rw [toInt_of_le (by rw [toNat_ofNat_of_le hle]; exact hle), toNat_ofNat_of_le hle]
    rcases Nat.eq_zero_or_pos (count k s.nleft) with hzero | hpos
    · have hbody : (writenLoop n).body s (.ok k) = (some (-1), s) := by
        simp [writenLoop, writeRet, hzero, interrupted, WState.write, writeAccepts]
      rw [hbody, (count_eq_zero_iff hgo).mp hzero]
      exact .stop (.inl rfl)
    · have hnot : ¬(count k s.nleft : ℤ) ≤ 0 := by omega
      have hbody : (writenLoop n).body s (.ok k) = (none, s.accept (count k s.nleft)) := by
        simp only [writenLoop, writeRet, hint, hnot, if_false, WState.write, writeAccepts,
          WState.advance, WState.accept]
      rw [hbody]
      exact .accept hpos
  | error e =>
    by_cases he : e = .eintr
    · subst he
      have hbody : (writenLoop n).body s (.error .eintr) = (none, s) := by
        simp [writenLoop, writeRet, interrupted, WState.write, WState.advance, writeAccepts]
      rw [hbody]
      exact .again
    · have hnot : interrupted (.error e) = false := by
        cases e <;> first | rfl | exact absurd rfl he
      have hbody : (writenLoop n).body s (.error e) = (some (-1), s) := by
        simp [writenLoop, writeRet, hnot, WState.write, writeAccepts]
      rw [hbody]
      exact .stop (.inr ⟨e, rfl, he⟩)

/-- **A round keeps the invariant.** -/
theorem Written.accept (h : Written n s) {j : ℕ} (hj : j ≤ s.nleft.toNat) :
    Written n (s.accept j) where
  accepted_eq := by
    simp only [WState.accept, List.length_append, length_span]
    rw [span_add, ← h.accepted_eq, BitVec.zero_add, ← h.ptr_eq]
  ptr_eq := by
    simp only [WState.accept, List.length_append, length_span]
    rw [BitVec.ofNat_add, ← h.ptr_eq]
  nleft_eq := by
    have heq := h.nleft_eq
    simp only [WState.accept, List.length_append, length_span]
    rw [toNat_sub_ofNat hj]
    omega

theorem exit_eq_none_iff : (writenLoop n).exit s = none ↔ s.nleft ≠ 0#64 := by
  simp only [writenLoop]
  split
  · next h => exact iff_of_false (Option.some_ne_none _) (not_not.mpr h)
  · next h => exact iff_of_true rfl h

theorem written_step (s : WState) (res : Except Errno ℕ) (s' : WState) (h : Written n s)
    (hgo : (writenLoop n).exit s = none) (hbody : (writenLoop n).body s res = (none, s')) :
    Written n s' ∧ s'.nleft.toNat + (if !interrupted res then 1 else 0) ≤ s.nleft.toNat := by
  have hround := writeRound n (exit_eq_none_iff.mp hgo) res
  rw [hbody] at hround
  cases hround with
  | @accept k hpos =>
    have hle := count_le_nbyte k s.nleft
    refine ⟨h.accept hle, ?_⟩
    simp only [WState.accept, toNat_sub_ofNat hle, interrupted, Bool.not_false, if_true]
    omega
  | again => exact ⟨h, Nat.le_refl _⟩

end

/-- How a call of `writen` ends. -/
inductive WriteEnd (n : BitVec 64) (results : List (Except Errno ℕ)) : Out WState ℤ → Prop
  /-- All bytes have been written. -/
  | all {s : WState} {k : ℕ} (hacc : s.accepted = span 0#64 n.toNat) :
    WriteEnd n results ⟨some n.toInt, s, k⟩
  /-- The last `write` returned `0` or failed. -/
  | stopped {s : WState} {k j : ℕ} {res : Except Errno ℕ} (hres : results[k]? = some res)
    (hstops : Stops res) (hj : j < n.toNat) (hacc : s.accepted = span 0#64 j) :
    WriteEnd n results ⟨some (-1), s, k + 1⟩
  /-- The next `write` has not returned. -/
  | waiting {s : WState} {j : ℕ} (hj : j < n.toNat) (hacc : s.accepted = span 0#64 j) :
    WriteEnd n results ⟨none, s, results.length⟩

/-- While something is left to write, the bytes accepted are not all. -/
theorem Written.partly {n : BitVec 64} {s : WState} (h : Written n s) (hgo : s.nleft ≠ 0#64) :
    ∃ j < n.toNat, s.accepted = span 0#64 j := by
  have hpos : s.nleft.toNat ≠ 0 := fun hzero => hgo (BitVec.eq_of_toNat_eq hzero)
  have heq := h.nleft_eq
  exact ⟨s.accepted.length, by omega, h.accepted_eq⟩

theorem writeEnd_of_ended {n : BitVec 64} {results : List (Except Errno ℕ)} {out : Out WState ℤ}
    (h : Ended (writenLoop n) (Written n) results out) : WriteEnd n results out := by
  cases h with
  | exit hs hexit =>
    simp only [writenLoop] at hexit
    split at hexit
    · next hzero =>
      cases hexit
      have heq := hs.nleft_eq
      rw [hzero, BitVec.toNat_zero, Nat.zero_add] at heq
      exact .all (by rw [← heq]; exact hs.accepted_eq)
    · cases hexit
  | @body s s' v res k hs hgo hres hbody =>
    have hleft := exit_eq_none_iff.mp hgo
    obtain ⟨j, hj, hacc⟩ := hs.partly hleft
    have hround := writeRound n hleft res
    rw [hbody] at hround
    cases hround with
    | stop hstops => exact .stopped hres hstops hj hacc
  | waiting hs hgo =>
    obtain ⟨j, hj, hacc⟩ := hs.partly (exit_eq_none_iff.mp hgo)
    exact .waiting hj hacc

/-- **`writen` ends in one of the three ways.** -/
theorem writen_end (n : BitVec 64) (results : List (Except Errno ℕ)) :
    WriteEnd n results (writen n results) :=
  writeEnd_of_ended (run_ended
    (fun s res s' hs hgo hbody => (written_step s res s' hs hgo hbody).1)
    results ⟨n, 0#64, []⟩ (written_start n))

/-- Enough results that are not interruptions make `writen` return. -/
theorem writen_returns (n : BitVec 64) (results : List (Except Errno ℕ))
    (h : n.toNat ≤ results.countP (!interrupted ·)) : (writen n results).ret ≠ none := by
  refine @run_returns _ _ _ (writenLoop n) (Written n) (fun s => s.nleft.toNat)
    (!interrupted ·) ?_ ?_ ?_ results ⟨n, 0#64, []⟩ (written_start n) h
  · intro s res s' hs hgo hbody
    exact (written_step s res s' hs hgo hbody).1
  · intro s _ hzero hgo
    exact exit_eq_none_iff.mp hgo (BitVec.eq_of_toNat_eq hzero)
  · intro s res s' hs hgo hbody
    exact (written_step s res s' hs hgo hbody).2

/-- What is expected of a `writen` of `n` bytes. -/
structure WriteExact (n : BitVec 64) (results : List (Except Errno ℕ)) (out : Out WState ℤ) :
    Prop where
  /-- It returns `n` exactly if the bytes have been accepted, once each and in order. -/
  all_iff : out.ret = some (n.toNat : ℤ) ↔ out.state.accepted = span 0#64 n.toNat
  /-- It returns `-1` only if the last `write` returned `0` or failed, and not for a
  signal; a proper initial part of the bytes has been accepted then. -/
  failed : out.ret = some (-1) →
    (∃ k res, out.calls = k + 1 ∧ results[k]? = some res ∧ Stops res) ∧
      ∃ j < n.toNat, out.state.accepted = span 0#64 j
  values : out.ret = none ∨ out.ret = some (-1) ∨ out.ret = some (n.toNat : ℤ)
  /-- It returns. -/
  returns : n.toNat ≤ results.countP (!interrupted ·) → out.ret ≠ none

theorem writen_exact (a : Area) (results : List (Except Errno ℕ)) :
    WriteExact a.n results (writen a.n results) := by
  have hint := toInt_of_le a.n_le
  have hne : ∀ {j : ℕ} {acc : List (BitVec 64)}, j < a.n.toNat → acc = span 0#64 j →
      acc ≠ span 0#64 a.n.toNat := by
    intro j acc hj hacc heq
    have hlen := congrArg List.length (hacc.symm.trans heq)
    rw [length_span, length_span] at hlen
    omega
  have hend := writen_end a.n results
  have hreturns := writen_returns a.n results
  generalize writen a.n results = out at hend hreturns ⊢
  cases hend with
  | all hacc =>
    rw [hint]
    refine ⟨iff_of_true rfl hacc, fun hret => ?_, .inr (.inr rfl), fun _ => Option.some_ne_none _⟩
    rw [Option.some.injEq] at hret
    omega
  | @stopped s k j res hres hstops hj hacc =>
    refine ⟨iff_of_false (fun hret => ?_) (hne hj hacc), fun _ => ?_, .inr (.inl rfl), hreturns⟩
    · rw [Option.some.injEq] at hret
      omega
    · exact ⟨⟨k, res, rfl, hres, hstops⟩, j, hj, hacc⟩
  | waiting hj hacc =>
    refine ⟨iff_of_false (fun hret => ?_) (hne hj hacc), fun hret => ?_, .inl rfl, hreturns⟩
    · cases hret
    · cases hret

/-! ### Reading -/

/-- The state of `readn`. -/
structure RState where
  nleft : BitVec 64
  ptr : BitVec 64
  /-- The memory of the caller. -/
  mem : List UInt8
  /-- The bytes of the stream the kernel still has. -/
  pending : List UInt8
  /-- The bytes it has handed over. -/
  got : List UInt8
  /-- A `read` has returned `0`. -/
  eof : Bool
  deriving DecidableEq, Repr

/-- `read(fd, ptr, nleft)`: what it returns, and what it has done. -/
def RState.read (s : RState) : Sched → BitVec 64 × RState
  | .chunk k =>
    let bs := s.pending.take (count (k + 1) s.nleft)
    (BitVec.ofNat 64 bs.length,
      { s with
        mem := writeAt s.mem s.ptr.toNat bs
        pending := s.pending.drop bs.length
        got := s.got ++ bs
        eof := bs.isEmpty })
  | .fail _ => (-1#64, s)

/-- The end of the loop body. -/
def RState.advance (s : RState) (nread : BitVec 64) : RState :=
  { s with nleft := s.nleft - nread, ptr := s.ptr + nread }

/-- The loop of `readn`. -/
def readnLoop (n : BitVec 64) : Loop RState Sched ℤ where
  exit s := if s.nleft = 0#64 then some (n - s.nleft).toInt else none
  body s d :=
    let (nread, s) := s.read d
    if nread.toInt < 0 then
      if d = .fail .eintr then (none, s.advance 0#64) else (some (-1), s)
    else if nread = 0#64 then (some (n - s.nleft).toInt, s)
    else (none, s.advance nread)

/-- `readn(fd, vptr, n)`, for this stream and these results of `read`. -/
def readn (a : Area) (stream : List UInt8) (sched : List Sched) : Out RState ℤ :=
  (readnLoop a.n).run sched ⟨a.n, 0#64, a.mem, stream, [], false⟩

/-- The bytes handed over are the first ones of the stream, and at the start of the
caller's memory; the rest of it is as it was. -/
structure Stored (a : Area) (stream : List UInt8) (s : RState) : Prop where
  stream_eq : s.got ++ s.pending = stream
  mem_eq : s.mem = s.got ++ a.mem.drop s.got.length
  got_le : s.got.length ≤ a.n.toNat

/-- The invariant of `readn`. -/
structure Filled (a : Area) (stream : List UInt8) (s : RState) : Prop where
  stored : Stored a stream s
  ptr_eq : s.ptr = BitVec.ofNat 64 s.got.length
  nleft_eq : s.nleft.toNat + s.got.length = a.n.toNat
  eof_eq : s.eof = false

theorem filled_start (a : Area) (stream : List UInt8) :
    Filled a stream ⟨a.n, 0#64, a.mem, stream, [], false⟩ :=
  ⟨⟨rfl, rfl, Nat.zero_le _⟩, rfl, rfl, rfl⟩

section

variable {a : Area} {stream : List UInt8} {s s' : RState}

/-- `n - nleft` is the number of bytes handed over. -/
theorem Filled.toInt_sub (h : Filled a stream s) : (a.n - s.nleft).toInt = s.got.length := by
  have hn := a.n_le
  have heq := h.nleft_eq
  have hsub : (a.n - s.nleft).toNat = s.got.length := by
    rw [BitVec.toNat_sub_of_le (BitVec.le_def.mpr (by omega))]
    omega
  rw [toInt_of_le (by omega), hsub]

/-- The bytes of a `read` are stored behind those already there. -/
theorem Filled.read_stored (h : Filled a stream s) (k : ℕ) :
    Stored a stream (s.read (.chunk k)).2 := by
  have hcount := count_le_nbyte (k + 1) s.nleft
  have heq := h.nleft_eq
  have hfits := a.fits
  have hptr : s.ptr.toNat = s.got.length := by
    rw [h.ptr_eq, toNat_ofNat_of_le (Nat.le_trans h.stored.got_le a.n_le)]
  simp only [RState.read]
  generalize hbs : s.pending.take (count (k + 1) s.nleft) = bs
  have hlen : bs.length ≤ s.nleft.toNat := by
    rw [← hbs, List.length_take]
    omega
  constructor
  · have hsplit : bs ++ s.pending.drop bs.length = s.pending := by
      have htake : s.pending.take bs.length = bs := by
        rw [← hbs, List.length_take, ← List.take_eq_take_min]
      calc bs ++ s.pending.drop bs.length
          = s.pending.take bs.length ++ s.pending.drop bs.length := by rw [htake]
        _ = s.pending := List.take_append_drop _ _
    simp only [List.append_assoc, hsplit]
    exact h.stored.stream_eq
  · simp only [writeAt, hptr, h.stored.mem_eq, List.take_left, List.length_append]
    rw [← List.drop_drop, List.drop_left, List.drop_drop]
  · simp only [List.length_append]
    omega

/-- What one round of the loop of `readn` does. -/
inductive ReadRound (a : Area) (stream : List UInt8) (s : RState) :
    Sched → Option ℤ × RState → Prop
  | store {k : ℕ} {s' : RState} (hfilled : Filled a stream s')
    (hless : s'.nleft.toNat < s.nleft.toNat) : ReadRound a stream s (.chunk k) (none, s')
  | eof {k : ℕ} {s' : RState} (hstored : Stored a stream s') (hgot : s'.got = stream)
    (heof : s'.eof = true) : ReadRound a stream s (.chunk k) (some (s'.got.length : ℤ), s')
  | again : ReadRound a stream s (.fail .eintr) (none, s)
  | stop {e : Errno} (he : e ≠ .eintr) : ReadRound a stream s (.fail e) (some (-1), s)

theorem readRound (h : Filled a stream s) (hgo : s.nleft ≠ 0#64) (d : Sched) :
    ReadRound a stream s d ((readnLoop a.n).body s d) := by
  cases d with
  | fail e =>
    by_cases he : e = .eintr
    · subst he
      have hbody : (readnLoop a.n).body s (.fail .eintr) = (none, s) := by
        simp [readnLoop, RState.read, RState.advance]
      rw [hbody]
      exact .again
    · have hbody : (readnLoop a.n).body s (.fail e) = (some (-1), s) := by
        simp [readnLoop, RState.read, he]
      rw [hbody]
      exact .stop he
  | chunk k =>
    have hstored := h.read_stored k
    have heq := h.nleft_eq
    have hcount := count_le_nbyte (k + 1) s.nleft
    have hlen : (s.pending.take (count (k + 1) s.nleft)).length ≤ count (k + 1) s.nleft :=
      List.length_take_le _ _
    have hret : (s.read (.chunk k)).1.toNat =
        (s.pending.take (count (k + 1) s.nleft)).length :=
      toNat_ofNat_of_le (Nat.le_trans hlen (count_le (k + 1) s.nleft))
    have hnot : ¬(s.read (.chunk k)).1.toInt < 0 := by
      have hmax := count_le (k + 1) s.nleft
      rw [toInt_of_le (by omega)]
      omega
    cases hpending : s.pending with
    | nil =>
      -- the end of file
      have hzero : (s.read (.chunk k)).1 = 0#64 := by
        apply BitVec.eq_of_toNat_eq
        rw [hret, hpending, List.take_nil]
        rfl
      have hgot : (s.read (.chunk k)).2.got = s.got := by simp [RState.read, hpending]
      have hstream := h.stored.stream_eq
      rw [hpending, List.append_nil] at hstream
      have hbody : (readnLoop a.n).body s (.chunk k) =
          (some ((s.read (.chunk k)).2.got.length : ℤ), (s.read (.chunk k)).2) := by
        have hsub : (a.n - (s.read (.chunk k)).2.nleft).toInt = s.got.length := h.toInt_sub
        simp only [readnLoop, hzero, hsub, hgot, BitVec.toInt_zero, Int.lt_irrefl, if_false,
          if_true]
      rw [hbody]
      exact .eof hstored (hgot.trans hstream) (by simp [RState.read, hpending])
    | cons c t =>
      have hpos : count (k + 1) s.nleft ≠ 0 := fun hzero =>
        Nat.succ_ne_zero k ((count_eq_zero_iff hgo).mp hzero)
      have hsome : 0 < (s.pending.take (count (k + 1) s.nleft)).length := by
        rw [hpending, List.length_take, List.length_cons]
        omega
      have hnonzero : (s.read (.chunk k)).1 ≠ 0#64 := by
        intro hzero
        rw [hzero, BitVec.toNat_zero] at hret
        omega
      have hbody : (readnLoop a.n).body s (.chunk k) =
          (none, (s.read (.chunk k)).2.advance (s.read (.chunk k)).1) := by
        simp only [readnLoop, hnot, hnonzero, if_false]
      rw [hbody]
      refine .store ⟨{ hstored with }, ?_, ?_, ?_⟩ ?_
      · simp only [RState.advance, RState.read, List.length_append]
        rw [BitVec.ofNat_add, ← h.ptr_eq]
      · simp only [RState.advance, RState.read, List.length_append]
        rw [toNat_sub_ofNat (by omega)]
        omega
      · exact List.isEmpty_eq_false_iff.mpr (List.ne_nil_of_length_pos hsome)
      · simp only [RState.advance, RState.read]
        rw [toNat_sub_ofNat (by omega)]
        omega

theorem readn_exit_eq_none_iff : (readnLoop a.n).exit s = none ↔ s.nleft ≠ 0#64 := by
  simp only [readnLoop]
  split
  · next h => exact iff_of_false (Option.some_ne_none _) (not_not.mpr h)
  · next h => exact iff_of_true rfl h

theorem filled_step (s : RState) (d : Sched) (s' : RState) (h : Filled a stream s)
    (hgo : (readnLoop a.n).exit s = none) (hbody : (readnLoop a.n).body s d = (none, s')) :
    Filled a stream s' ∧
      s'.nleft.toNat + (if d ≠ .fail .eintr then 1 else 0) ≤ s.nleft.toNat := by
  have hround := readRound h (readn_exit_eq_none_iff.mp hgo) d
  rw [hbody] at hround
  cases hround with
  | store hfilled hless =>
    refine ⟨hfilled, ?_⟩
    rw [if_pos (by nofun)]
    exact hless
  | again =>
    refine ⟨h, ?_⟩
    rw [if_neg (not_not.mpr rfl)]
    exact Nat.le_refl _

end

/-- How a call of `readn` ends. -/
inductive ReadEnd (a : Area) (stream : List UInt8) (sched : List Sched) : Out RState ℤ → Prop
  /-- The bytes asked for have been read, or a `read` has found the end of file. -/
  | done {s : RState} {k : ℕ} (hstored : Stored a stream s)
    (hend : s.got.length = a.n.toNat ∨ s.eof = true) (heof : s.eof = true → s.got = stream) :
    ReadEnd a stream sched ⟨some (s.got.length : ℤ), s, k⟩
  /-- The last `read` failed. -/
  | stopped {s : RState} {k : ℕ} {e : Errno} (hstored : Stored a stream s)
    (hd : sched[k]? = some (.fail e)) (he : e ≠ .eintr) (hlt : s.got.length < a.n.toNat)
    (heof : s.eof = false) : ReadEnd a stream sched ⟨some (-1), s, k + 1⟩
  /-- The next `read` has not returned. -/
  | waiting {s : RState} (hstored : Stored a stream s) (hlt : s.got.length < a.n.toNat)
    (heof : s.eof = false) : ReadEnd a stream sched ⟨none, s, sched.length⟩

theorem readEnd_of_ended {a : Area} {stream : List UInt8} {sched : List Sched}
    {out : Out RState ℤ} (h : Ended (readnLoop a.n) (Filled a stream) sched out) :
    ReadEnd a stream sched out := by
  have hlt : ∀ {s : RState}, Filled a stream s → (readnLoop a.n).exit s = none →
      s.got.length < a.n.toNat := by
    intro s hs hgo
    have hpos : s.nleft.toNat ≠ 0 := fun hzero =>
      readn_exit_eq_none_iff.mp hgo (BitVec.eq_of_toNat_eq hzero)
    have heq := hs.nleft_eq
    omega
  cases h with
  | @exit s v k hs hexit =>
    have heof : s.eof = true → s.got = stream := by
      rw [hs.eof_eq]
      intro htrue
      cases htrue
    simp only [readnLoop] at hexit
    split at hexit
    · next hzero =>
      have heq := hs.nleft_eq
      rw [hzero, BitVec.toNat_zero, Nat.zero_add] at heq
      rw [Option.some.injEq, hs.toInt_sub] at hexit
      rw [← hexit]
      exact .done hs.stored (.inl heq) heof
    · cases hexit
  | @body s s' v d k hs hgo hd hbody =>
    have hround := readRound hs (readn_exit_eq_none_iff.mp hgo) d
    rw [hbody] at hround
    cases hround with
    | eof hstored hgot heof => exact .done hstored (.inr heof) fun _ => hgot
    | stop he => exact .stopped hs.stored hd he (hlt hs hgo) hs.eof_eq
  | waiting hs hgo => exact .waiting hs.stored (hlt hs hgo) hs.eof_eq

/-- **`readn` ends in one of the three ways.** -/
theorem readn_end (a : Area) (stream : List UInt8) (sched : List Sched) :
    ReadEnd a stream sched (readn a stream sched) :=
  readEnd_of_ended (run_ended
    (fun s d s' hs hgo hbody => (filled_step s d s' hs hgo hbody).1)
    sched ⟨a.n, 0#64, a.mem, stream, [], false⟩ (filled_start a stream))

/-- Enough results that are not interruptions make `readn` return. -/
theorem readn_returns (a : Area) (stream : List UInt8) (sched : List Sched)
    (h : a.n.toNat ≤ sched.countP (· ≠ .fail .eintr)) : (readn a stream sched).ret ≠ none := by
  refine @run_returns _ _ _ (readnLoop a.n) (Filled a stream) (fun s => s.nleft.toNat)
    (· ≠ .fail .eintr) ?_ ?_ ?_ sched ⟨a.n, 0#64, a.mem, stream, [], false⟩
    (filled_start a stream) h
  · intro s d s' hs hgo hbody
    exact (filled_step s d s' hs hgo hbody).1
  · intro s _ hzero hgo
    exact readn_exit_eq_none_iff.mp hgo (BitVec.eq_of_toNat_eq hzero)
  · intro s d s' hs hgo hbody
    have hdown := (filled_step s d s' hs hgo hbody).2
    simpa only [decide_eq_true_eq] using hdown

/-- What is expected of a `readn`. -/
structure ReadExact (a : Area) (stream : List UInt8) (sched : List Sched) (out : Out RState ℤ) :
    Prop where
  /-- The bytes handed over are the first ones of the stream, and stored in order; at the
  end of file they are the whole stream. -/
  stored : out.state.got <+: stream ∧
    out.state.mem = out.state.got ++ a.mem.drop out.state.got.length ∧
    (out.state.eof = true → out.state.got = stream)
  /-- It returns `k` exactly if there are `k` of them, and `k` is `n` or the end of file was
  found. -/
  count_iff : ∀ k : ℕ, out.ret = some (k : ℤ) ↔
    out.state.got.length = k ∧ (k = a.n.toNat ∨ out.state.eof = true)
  /-- It returns `-1` only if the last `read` failed, and not for a signal. -/
  failed : out.ret = some (-1) →
    ∃ k e, out.calls = k + 1 ∧ sched[k]? = some (.fail e) ∧ e ≠ .eintr
  values : out.ret = none ∨ out.ret = some (-1) ∨ ∃ k : ℕ, out.ret = some (k : ℤ)
  /-- It returns. -/
  returns : a.n.toNat ≤ sched.countP (· ≠ .fail .eintr) → out.ret ≠ none

/-- While the loop goes on, neither of the two reasons for its end is there. -/
theorem not_count_of_lt {a : Area} {s : RState} (hlt : s.got.length < a.n.toNat)
    (heof : s.eof = false) (k : ℕ) : ¬(s.got.length = k ∧ (k = a.n.toNat ∨ s.eof = true)) := by
  rintro ⟨hlen, hall | htrue⟩
  · omega
  · rw [heof] at htrue
    cases htrue

theorem readn_exact (a : Area) (stream : List UInt8) (sched : List Sched) :
    ReadExact a stream sched (readn a stream sched) := by
  have hnoeof : ∀ {s : RState}, s.eof = false → s.eof = true → s.got = stream := by
    intro s heof htrue
    rw [heof] at htrue
    cases htrue
  have hend := readn_end a stream sched
  have hreturns := readn_returns a stream sched
  generalize readn a stream sched = out at hend hreturns ⊢
  cases hend with
  | @done s j hstored hend heof =>
    refine ⟨⟨⟨_, hstored.stream_eq⟩, hstored.mem_eq, heof⟩, fun k => ⟨fun hret => ?_, ?_⟩,
      fun hret => ?_, .inr (.inr ⟨_, rfl⟩), hreturns⟩
    · have hlen : s.got.length = k := Int.ofNat_inj.mp (Option.some.inj hret)
      exact ⟨hlen, hlen ▸ hend⟩
    · rintro ⟨hlen, -⟩
      rw [hlen]
    · rw [Option.some.injEq] at hret
      omega
  | @stopped s k e hstored hd he hlt heof =>
    refine ⟨⟨⟨_, hstored.stream_eq⟩, hstored.mem_eq, hnoeof heof⟩,
      fun k => iff_of_false (fun hret => ?_) (not_count_of_lt hlt heof k),
      fun _ => ⟨k, e, rfl, hd, he⟩, .inr (.inl rfl), hreturns⟩
    rw [Option.some.injEq] at hret
    omega
  | waiting hstored hlt heof =>
    refine ⟨⟨⟨_, hstored.stream_eq⟩, hstored.mem_eq, hnoeof heof⟩,
      fun k => iff_of_false (fun hret => ?_) (not_count_of_lt hlt heof k),
      fun hret => ?_, .inl rfl, hreturns⟩
    · cases hret
    · cases hret

/-- **Whole transfers.**  Whatever the memory of the caller, the stream and the results of
the system calls, `writen` and `readn` are exact. -/
theorem transfer_exact (a : Area) (results : List (Except Errno ℕ)) (stream : List UInt8)
    (sched : List Sched) :
    WriteExact a.n results (writen a.n results) ∧
      ReadExact a stream sched (readn a stream sched) :=
  ⟨writen_exact a results, readn_exact a stream sched⟩

/-- Three bytes are written with an interruption in between, and three read. -/
example :
    (writen 3#64 [.ok 1, .error .eintr, .ok 5]).ret = some 3 ∧
      (readn ⟨[0, 0, 0, 0], 3#64, by decide, by decide⟩ [97, 98, 99, 100]
        [.chunk 1, .fail .eintr, .chunk 0]).state.mem = [97, 98, 99, 0] := by
  decide

end TcpIp.Io
