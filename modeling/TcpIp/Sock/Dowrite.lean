import Mathlib.Algebra.Group.Int.Defs
import Mathlib.Algebra.GroupWithZero.Nat
import Mathlib.Algebra.Order.Group.Unbundled.Int
import Mathlib.Tactic.Common
import TcpIp.Lib.Bytes

/-!
# Writing in chunks

`dowrite` of `sock` writes a buffer with one `write`, with one `write` for each of
`UIO_MAXIOV` chunks or less, or with one `writev` of these chunks.  The size of a chunk is
the quotient of the number of bytes by `UIO_MAXIOV`, rounded up, and `1` if there are fewer
bytes than that.

## Main definitions

* `chunksize`, `fillIov` — the chunks.
* `dowrite` — the function.
* `Covers` — chunks that lie one behind the other.

## Main results

* `fillIov_covers` — the chunks make up the buffer, and there is an entry for each of them.
* `dowrite_chunks` — what follows for `dowrite`, and what it returns.
* `accepted_dowrite` — where `dowrite` returns the number of bytes, they have been written, once
  each and in order.
-/

namespace TcpIp.Sock

open Bytes

/-- An entry of `iov`. -/
structure Iovec where
  /-- Where the chunk begins, counted from the start of the buffer. -/
  base : ℕ
  len : ℕ
  deriving DecidableEq, Repr

/-- A call of `write` or `writev`, and what it returned. -/
structure Call where
  iov : List Iovec
  res : ℤ
  deriving DecidableEq, Repr

/-- What `dowrite` has done. -/
structure Done where
  calls : List Call
  /-- The value returned; `none` if the program was left through `err_quit`. -/
  ret : Option ℤ
  deriving DecidableEq, Repr

/-! ### The function -/

section Function

variable (maxiov bits : ℕ)

/-- The variable `chunksize`, with `maxiov` for `UIO_MAXIOV`. -/
def chunksize (nbytes : ℕ) : ℕ :=
  if nbytes / maxiov = 0 then 1
  else if nbytes % maxiov ≠ 0 then nbytes / maxiov + 1
  else nbytes / maxiov

/-- The loop that fills `iov`, with the number of entries that are free: `none` if it ends
because there is none. -/
def fillLoop (chunksize : ℕ) : ℕ → ℕ → ℕ → Option (List Iovec)
  | 0, _, _ => none
  | free + 1, ptr, nleft =>
    let n := if chunksize ≤ nleft then chunksize else nleft
    if nleft - n = 0 then some [⟨ptr, n⟩]
    else (fillLoop chunksize free (ptr + n) (nleft - n)).map (⟨ptr, n⟩ :: ·)

/-- The entries `0..i` of `iov`; `none` if `i == UIO_MAXIOV` after the loop. -/
def fillIov (nbytes : ℕ) : Option (List Iovec) :=
  fillLoop (chunksize maxiov nbytes) maxiov 0 nbytes

/-- The loop that writes the chunks.  `res` has the results of the calls that follow, and
`nwritten` is compared with a `size_t` of `bits` bits. -/
def writeLoop : List Iovec → (ℕ → ℤ) → ℤ → Done
  | [], _, ntotal => ⟨[], some ntotal⟩
  | v :: iov, res, ntotal =>
    let nwritten := res 0
    let call : Call := ⟨[v], nwritten⟩
    if asUnsigned bits nwritten ≠ v.len then ⟨[call], some (-1)⟩
    else
      let rest := writeLoop iov (fun k => res (k + 1)) (ntotal + nwritten)
      ⟨call :: rest.calls, rest.ret⟩

/-- `dowrite(fd, vptr, nbytes)`, with the results of the calls it makes. -/
def dowrite (chunkwrite usewritev : Bool) (nbytes : ℕ) (res : ℕ → ℤ) : Done :=
  if chunkwrite = false ∧ usewritev = false then ⟨[⟨[⟨0, nbytes⟩], res 0⟩], some (res 0)⟩
  else
    match fillIov maxiov nbytes with
    | none => ⟨[], none⟩
    | some iov => if usewritev then ⟨[⟨iov, res 0⟩], some (res 0)⟩ else writeLoop bits iov res 0

end Function

/-! ### The chunks -/

/-- The chunks lie one behind the other, from one position to another. -/
inductive Covers : ℕ → List Iovec → ℕ → Prop
  | nil (p : ℕ) : Covers p [] p
  | cons {p q n : ℕ} {iov : List Iovec} (h : Covers (p + n) iov q) : Covers p (⟨p, n⟩ :: iov) q

section Chunks

variable {maxiov nbytes p q : ℕ} {iov : List Iovec} {buf : List UInt8}

theorem Covers.add_sum (h : Covers p iov q) : p + (iov.map Iovec.len).sum = q := by
  induction h with
  | nil p => rfl
  | cons h ih =>
    rw [List.map_cons, List.sum_cons, ← Nat.add_assoc]
    exact ih

theorem Covers.len_le (h : Covers p iov q) {v : Iovec} (hv : v ∈ iov) : p + v.len ≤ q := by
  induction h with
  | nil p => simp at hv
  | cons h ih =>
    rcases List.mem_cons.mp hv with rfl | hv
    · have hsum := h.add_sum
      simp only
      omega
    · have := ih hv
      omega

/-- The bytes of some chunks. -/
def gather (buf : List UInt8) (iov : List Iovec) : List UInt8 :=
  (iov.map fun v => slice buf v.base v.len).flatten

theorem gather_cons (v : Iovec) (iov : List Iovec) :
    gather buf (v :: iov) = slice buf v.base v.len ++ gather buf iov := rfl

/-- The bytes of chunks that lie one behind the other are those between. -/
theorem Covers.gather (h : Covers p iov q) : gather buf iov = (buf.drop p).take (q - p) := by
  induction h with
  | nil p => simp [Sock.gather]
  | @cons p q n iov h ih =>
    have hsum := h.add_sum
    have hsplit : q - p = n + (q - (p + n)) := by omega
    rw [gather_cons, ih, slice, hsplit, List.take_add, List.drop_drop]

/-- As many chunks as there are entries have room for the buffer. -/
theorem le_mul_chunksize (hmax : 1 ≤ maxiov) (nbytes : ℕ) :
    nbytes ≤ maxiov * chunksize maxiov nbytes := by
  have hdiv := Nat.div_add_mod nbytes maxiov
  have hmod := Nat.mod_lt nbytes (Nat.lt_of_lt_of_le Nat.zero_lt_one hmax)
  unfold chunksize
  split
  · next hzero =>
    rw [hzero, Nat.mul_zero] at hdiv
    omega
  · split
    · rw [Nat.mul_add]
      omega
    · next hmod0 =>
      rw [not_not] at hmod0
      omega

/-- **The loop finds an entry for every chunk**, if as many chunks as there are entries left have
room for what is left. -/
theorem fillLoop_covers {chunksize : ℕ} : ∀ (free ptr nleft : ℕ),
    0 < free → nleft ≤ free * chunksize →
    ∃ iov, fillLoop chunksize free ptr nleft = some iov ∧ Covers ptr iov (ptr + nleft) ∧
      iov ≠ [] ∧ iov.length ≤ free := by
  intro free
  induction free with
  | zero => intro _ _ hfree; omega
  | succ free ih =>
    intro ptr nleft _ hroom
    rw [fillLoop]
    by_cases hlast : nleft ≤ chunksize
    · -- the rest is one chunk
      have hn : (if chunksize ≤ nleft then chunksize else nleft) = nleft := by
        split <;> omega
      simp only [hn, Nat.sub_self, if_true]
      exact ⟨_, rfl, .cons (.nil _), List.cons_ne_nil _ _, by simp⟩
    · have hle : chunksize ≤ nleft := by omega
      have hmore : nleft - chunksize ≠ 0 := by omega
      have hroom' : nleft - chunksize ≤ free * chunksize := by
        rw [Nat.succ_mul] at hroom
        omega
      have hfree : 0 < free := by
        refine Nat.pos_of_ne_zero fun hzero => ?_
        rw [hzero, Nat.zero_mul] at hroom'
        omega
      obtain ⟨iov, hiov, hcovers, -, hlen⟩ :=
        ih (ptr + chunksize) (nleft - chunksize) hfree hroom'
      simp only [if_pos hle, if_neg hmore, hiov, Option.map_some]
      have hend : ptr + chunksize + (nleft - chunksize) = ptr + nleft := by omega
      rw [hend] at hcovers
      exact ⟨_, rfl, .cons hcovers, List.cons_ne_nil _ _, by simpa using hlen⟩

/-- **The entries cover the buffer**, and there is an entry for each of the chunks. -/
theorem fillIov_covers (hmax : 1 ≤ maxiov) (nbytes : ℕ) :
    ∃ iov, fillIov maxiov nbytes = some iov ∧ Covers 0 iov nbytes ∧ iov ≠ [] ∧
      iov.length ≤ maxiov := by
  have h := fillLoop_covers maxiov 0 nbytes hmax (le_mul_chunksize hmax nbytes)
  rwa [Nat.zero_add] at h

end Chunks

/-! ### The results -/

/-- The number fits into an `int`. -/
def IsInt (x : ℤ) : Prop := -2 ^ 31 ≤ x ∧ x < 2 ^ 31

section Results

variable {maxiov bits nbytes : ℕ} {res : ℕ → ℤ} {iov : List Iovec} {buf : List UInt8}

/-- The results of the calls say that every chunk has been written completely. -/
def Complete (iov : List Iovec) (res : ℕ → ℤ) : Prop :=
  ∀ k v, iov[k]? = some v → res k = v.len

theorem complete_cons {v : Iovec} :
    Complete (v :: iov) res ↔ res 0 = v.len ∧ Complete iov fun k => res (k + 1) := by
  constructor
  · intro h
    exact ⟨h 0 v rfl, fun k w hw => h (k + 1) w hw⟩
  · rintro ⟨h0, h⟩ k w hw
    cases k with
    | zero =>
      cases hw
      exact h0
    | succ k => exact h k w hw

/-- A result that is an `int` and a length that is one are equal if they are equal as unsigned
numbers. -/
theorem asUnsigned_eq_iff (hbits : 32 ≤ bits) {x : ℤ} (hx : IsInt x) {n : ℕ} (hn : n < 2 ^ 31) :
    asUnsigned bits x = n ↔ x = n := by
  have hpow : (2 : ℤ) ^ 32 ≤ 2 ^ bits := by
    exact_mod_cast Nat.pow_le_pow_right (Nat.zero_lt_two) hbits
  obtain ⟨hlow, hhigh⟩ := hx
  have hn' : (n : ℤ) < 2 ^ 31 := by exact_mod_cast hn
  rcases Int.lt_or_le x 0 with hneg | hpos
  · -- a negative number becomes too large
    have hsum : asUnsigned bits x = x + 2 ^ bits := by
      unfold asUnsigned
      rw [← Int.add_emod_right, Int.emod_eq_of_lt] <;> omega
    rw [hsum]
    constructor <;> intro h <;> omega
  · rw [asUnsigned_of_lt hpos (by omega)]

/-- **The value returned when the chunks are written one by one.** -/
theorem writeLoop_ret (hbits : 32 ≤ bits) : ∀ (iov : List Iovec) (res : ℕ → ℤ) (ntotal : ℤ),
    (∀ v ∈ iov, v.len < 2 ^ 31) → (∀ k, IsInt (res k)) →
    (Complete iov res →
        (writeLoop bits iov res ntotal).ret = some (ntotal + (iov.map Iovec.len).sum)) ∧
      (¬ Complete iov res → (writeLoop bits iov res ntotal).ret = some (-1)) := by
  intro iov
  induction iov with
  | nil =>
    intro res ntotal _ _
    refine ⟨fun _ => by simp [writeLoop], fun h => absurd ?_ h⟩
    intro k v hv
    simp at hv
  | cons v iov ih =>
    intro res ntotal hlen hint
    obtain ⟨hv, hiov⟩ := List.forall_mem_cons.mp hlen
    obtain ⟨hall, hnot⟩ := ih (fun k => res (k + 1)) (ntotal + res 0) hiov fun k => hint (k + 1)
    have hiff := asUnsigned_eq_iff hbits (hint 0) hv
    rw [complete_cons]
    by_cases h0 : res 0 = v.len
    · -- the loop goes on
      have heq : ¬ asUnsigned bits (res 0) ≠ v.len := not_not.mpr (hiff.mpr h0)
      simp only [writeLoop, if_neg heq]
      refine ⟨fun h => ?_, fun h => hnot fun hrest => h ⟨h0, hrest⟩⟩
      rw [hall h.2, h0, List.map_cons, List.sum_cons]
      push_cast
      rw [Int.add_assoc]
    · have hne : asUnsigned bits (res 0) ≠ v.len := fun h => h0 (hiff.mp h)
      rw [writeLoop, if_pos hne]
      exact ⟨fun h => absurd h.1 h0, fun _ => rfl⟩

/-- The bytes that a call has written. -/
def Call.accepted (buf : List UInt8) (c : Call) : List UInt8 := (gather buf c.iov).take c.res.toNat

/-- The bytes that all the calls have written. -/
def Done.accepted (buf : List UInt8) (d : Done) : List UInt8 :=
  (d.calls.map (Call.accepted buf)).flatten

theorem writeLoop_accepted (buf : List UInt8) (hbits : 32 ≤ bits) :
    ∀ (iov : List Iovec) (res : ℕ → ℤ) (ntotal : ℤ),
    (∀ v ∈ iov, v.len < 2 ^ 31) → (∀ k, IsInt (res k)) → Complete iov res →
    (writeLoop bits iov res ntotal).accepted buf = gather buf iov := by
  intro iov
  induction iov with
  | nil => intro res ntotal _ _ _; rfl
  | cons v iov ih =>
    intro res ntotal hlen hint hcomplete
    obtain ⟨hv, hiov⟩ := List.forall_mem_cons.mp hlen
    obtain ⟨h0, hrest⟩ := complete_cons.mp hcomplete
    have heq : ¬ asUnsigned bits (res 0) ≠ v.len :=
      not_not.mpr ((asUnsigned_eq_iff hbits (hint 0) hv).mpr h0)
    have hih := ih (fun k => res (k + 1)) (ntotal + res 0) hiov (fun k => hint (k + 1)) hrest
    unfold Done.accepted at hih ⊢
    simp only [writeLoop, if_neg heq, List.map_cons, List.flatten_cons, hih, gather_cons,
      Call.accepted]
    rw [h0, Int.toNat_natCast]
    have hslice : (slice buf v.base v.len).length ≤ v.len := by
      rw [slice, List.length_take]
      omega
    simp [Sock.gather, List.take_of_length_le hslice]

/-- **Where `dowrite` returns the number of bytes, they have been written**, once each and in
order. -/
theorem accepted_dowrite (hbits : 32 ≤ bits) (hmax : 1 ≤ maxiov) (hn : buf.length < 2 ^ 31)
    (hres : ∀ k, IsInt (res k)) {chunkwrite usewritev : Bool}
    (hret : (dowrite maxiov bits chunkwrite usewritev buf.length res).ret =
      some (buf.length : ℤ)) :
    (dowrite maxiov bits chunkwrite usewritev buf.length res).accepted buf = buf := by
  obtain ⟨iov, hiov, hcovers, -, -⟩ := fillIov_covers hmax buf.length
  have hgather : gather buf iov = buf := by
    rw [hcovers.gather, Nat.sub_zero, List.drop_zero, List.take_length]
  have hlens : ∀ v ∈ iov, v.len < 2 ^ 31 := by
    intro v hv
    have := hcovers.len_le hv
    omega
  cases chunkwrite <;> cases usewritev <;>
    simp only [dowrite, hiov, false_and, and_false, and_self, if_true, if_false,
      Bool.true_eq_false, Bool.false_eq_true, Option.some.injEq] at hret ⊢
  · simp [Done.accepted, Call.accepted, gather, slice, hret]
  · simp [Done.accepted, Call.accepted, hgather, hret]
  · have hcomplete : Complete iov res := by
      by_contra hnot
      rw [(writeLoop_ret hbits iov res 0 hlens hres).2 hnot, Option.some.injEq] at hret
      omega
    rw [writeLoop_accepted buf hbits iov res 0 hlens hres hcomplete, hgather]
  · simp [Done.accepted, Call.accepted, hgather, hret]

end Results

end TcpIp.Sock
