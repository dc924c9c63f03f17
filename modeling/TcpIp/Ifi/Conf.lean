import TcpIp.Kernel
import TcpIp.Lib.Frames

/-!
# The size of the interface list

`get_ifi_info` of `lib/` asks the kernel for the list of interfaces with `SIOCGIFCONF`, which
fills a buffer and says how much of it is filled, but not whether the list is complete.  So the
function asks again with a larger buffer until the answer is the same twice.  Some kernels refuse
a buffer that is too small; that is taken for an answer as long as there has been no other.

## Main definitions

* `Ifconf` — a kernel with a list of interfaces.
* `sizingLoop` — the loop of `get_ifi_info`.

## Main results

* `ioctl_longest` — the kernel stores as many of the first records as fit.
* `sizing_complete` — **the loop ends with the complete list.**
-/

namespace TcpIp.Ifi

open Frames

/-- `EINVAL` -/
def einval : Errno := .other 22

/-- A kernel with a fixed list of interfaces. -/
structure Ifconf where
  /-- What it stores for each of them. -/
  records : List (List UInt8)
  /-- The sizes of a buffer that it refuses. -/
  refuses : ℕ → Bool
  /-- It refuses no buffer that the list fits into. -/
  lt_of_refuses : ∀ {len}, refuses len = true → len < records.flatten.length
  /-- If it accepts a buffer, it accepts the larger ones. -/
  refuses_of_le : ∀ {len len'}, refuses len' = true → len ≤ len' → refuses len = true

namespace Ifconf

/-- The length of the complete list. -/
def total (k : Ifconf) : ℕ := k.records.flatten.length

/-- `SIOCGIFCONF` with a buffer of `len` bytes: what is stored in the buffer.  The member `ifc_len`
is set to its length. -/
def ioctl (k : Ifconf) (len : ℕ) : Except Errno (List UInt8) :=
  if k.refuses len then .error einval else .ok (fit len k.records).flatten

end Ifconf

/-- How the loop ends. -/
inductive Sized where
  /-- `err_sys`. -/
  | failed (e : Errno)
  /-- The size of the buffer, and what has been stored in it. -/
  | done (len : ℕ) (stored : List UInt8)
  deriving DecidableEq, Repr

/-- The loop, with `size` for `sizeof(struct ifreq)`.  The value is `none` if it has not ended
after `fuel` turns. -/
def sizingLoop (ioctl : ℕ → Except Errno (List UInt8)) (size : ℕ) : ℕ → ℕ → ℕ → Option Sized
  | 0, _, _ => none
  | fuel + 1, len, lastlen =>
    match ioctl len with
    | .error e =>
      if e ≠ einval ∨ lastlen ≠ 0 then some (.failed e)
      else sizingLoop ioctl size fuel (len + 10 * size) lastlen
    | .ok stored =>
      if stored.length = lastlen then some (.done len stored)
      else sizingLoop ioctl size fuel (len + 10 * size) stored.length

/-- The loop of `get_ifi_info`. -/
def sizing (ioctl : ℕ → Except Errno (List UInt8)) (size fuel : ℕ) : Option Sized :=
  sizingLoop ioctl size fuel (100 * size) 0

section Sizing

variable {k : Ifconf} {size len lastlen bound : ℕ}

/-- What is stored are the first records, as many as fit. -/
theorem ioctl_longest {stored : List UInt8} (h : k.ioctl len = .ok stored) :
    ∃ first, stored = first.flatten ∧ first <+: k.records ∧ first.flatten.length ≤ len ∧
      ∀ first', first' <+: k.records → first'.flatten.length ≤ len → first' <+: first := by
  unfold Ifconf.ioctl at h
  split at h
  · cases h
  · cases h
    exact ⟨fit len k.records, rfl, fit_isPrefix k.records len, (length_fit_le k.records len).1,
      fun first' => isPrefix_fit k.records first' len⟩

theorem size_pos (hrec : ∀ r ∈ k.records, r.length ≤ 10 * size) (h : 0 < k.total) : 0 < size := by
  refine Nat.pos_of_ne_zero fun hzero => ?_
  subst hzero
  have hall := fit_eq_self_of_room k.records 0 hrec (by have := length_fit_le k.records 0; omega)
  have hlen := (length_fit_le k.records 0).1
  rw [hall] at hlen
  unfold Ifconf.total at h
  omega

/-- What holds at the start of a turn.  `bound` bounds the sizes that are asked for. -/
structure Turn (k : Ifconf) (size bound len lastlen : ℕ) : Prop where
  /-- Since the last answer the buffer has grown. -/
  room : lastlen + 10 * size ≤ len
  le_total : lastlen ≤ k.total
  /-- Behind an answer nothing is refused. -/
  accepted : lastlen ≠ 0 → k.refuses len = false
  le_bound : len ≤ bound
  /-- If the answer was not the complete list there is another turn. -/
  next_le_bound : lastlen ≠ k.total → len + 10 * size ≤ bound

theorem refuses_add (h : k.refuses len = false) (m : ℕ) : k.refuses (len + m) = false := by
  cases hlarger : k.refuses (len + m) with
  | false => rfl
  | true =>
    rw [k.refuses_of_le hlarger (Nat.le_add_right len m)] at h
    cases h

namespace Turn

/-- What the loop still has to do: a larger buffer as long as the list does not fit, and then one
turn for each answer that is still to come. -/
def left (k : Ifconf) (len lastlen : ℕ) : ℕ :=
  (k.total - len) + (if lastlen = k.total then 1 else 2)

variable (hrec : ∀ r ∈ k.records, r.length ≤ 10 * size) (hbound : k.total + 20 * size ≤ bound)
  (h : Turn k size bound len lastlen)

include hrec hbound h

/-- A buffer that is refused is too small, and there has been no answer. -/
theorem refused (hrefuses : k.refuses len = true) :
    lastlen = 0 ∧ Turn k size bound (len + 10 * size) 0 ∧
      left k (len + 10 * size) 0 < left k len lastlen := by
  obtain ⟨hroom, -, haccepted, -, -⟩ := h
  have hlt : len < k.total := k.lt_of_refuses hrefuses
  have hzero : lastlen = 0 := by
    by_contra hne
    rw [haccepted hne] at hrefuses
    cases hrefuses
  have hsize := size_pos hrec (by omega)
  have hne : ¬ 0 = k.total := by omega
  refine ⟨hzero, ⟨by omega, by omega, fun h => absurd rfl h, by omega, fun _ => by omega⟩, ?_⟩
  rw [left, left, hzero, if_neg hne]
  omega

/-- After an answer that has not come before, the next buffer is accepted. -/
theorem answered (hrefuses : k.refuses len = false)
    (hnew : (fit len k.records).flatten.length ≠ lastlen) :
    Turn k size bound (len + 10 * size) (fit len k.records).flatten.length ∧
      left k (len + 10 * size) (fit len k.records).flatten.length < left k len lastlen := by
  obtain ⟨hroom, -, -, -, hnext⟩ := h
  obtain ⟨hfit, hfit'⟩ := length_fit_le k.records len
  have hbehind := refuses_add hrefuses (10 * size)
  rcases Nat.lt_or_ge len k.total with hlt | hge
  · -- the list does not fit yet
    have hsize := size_pos hrec (show 0 < k.total by omega)
    refine ⟨⟨by omega, hfit', fun _ => hbehind, by omega, fun _ => by omega⟩, ?_⟩
    unfold left
    split <;> split <;> omega
  · -- the answer is complete, and comes once more
    have hall : (fit len k.records).flatten.length = k.total := by
      rw [fit_eq_self k.records len hge, Ifconf.total]
    rw [hall] at hnew hfit ⊢
    refine ⟨⟨by omega, Nat.le_refl _, fun _ => hbehind, hnext hnew.symm, fun h => absurd rfl h⟩, ?_⟩
    rw [left, left, if_pos rfl, if_neg hnew.symm]
    omega

end Turn

/-- **The loop ends with the complete list.**  An answer that comes twice leaves room for any
record, so it is complete; an answer that does not come twice is followed by a larger buffer,
and from a buffer on that the list fits into the answers are the same. -/
theorem sizingLoop_complete (hrec : ∀ r ∈ k.records, r.length ≤ 10 * size)
    (hbound : k.total + 20 * size ≤ bound) : ∀ (fuel len lastlen : ℕ),
    Turn k size bound len lastlen → Turn.left k len lastlen ≤ fuel →
    ∃ len' ≤ bound, sizingLoop k.ioctl size fuel len lastlen =
      some (.done len' k.records.flatten) := by
  intro fuel
  induction fuel with
  | zero =>
    intro len lastlen _ hfuel
    unfold Turn.left at hfuel
    split at hfuel <;> omega
  | succ fuel ih =>
    intro len lastlen hturn hfuel
    rw [sizingLoop]
    cases hrefuses : k.refuses len with
    | true =>
      obtain ⟨hzero, hturn', hless⟩ := hturn.refused hrec hbound hrefuses
      simp only [Ifconf.ioctl, hrefuses, if_true, hzero, ne_eq, not_true_eq_false, or_self,
        if_false]
      exact ih _ _ hturn' (by omega)
    | false =>
      simp only [Ifconf.ioctl, hrefuses, Bool.false_eq_true, if_false]
      by_cases hsame : (fit len k.records).flatten.length = lastlen
      · have hroom := hturn.room
        have hall : fit len k.records = k.records :=
          fit_eq_self_of_room k.records len hrec (by omega)
        rw [if_pos hsame, hall]
        exact ⟨len, hturn.le_bound, rfl⟩
      · obtain ⟨hturn', hless⟩ := hturn.answered hrec hbound hrefuses hsame
        rw [if_neg hsame]
        exact ih _ _ hturn' (by omega)

end Sizing

/-- The loop of `get_ifi_info` ends with the complete list. -/
theorem sizing_done (k : Ifconf) (size : ℕ) (hrec : ∀ r ∈ k.records, r.length ≤ 10 * size) :
    ∃ fuel len, sizing k.ioctl size fuel = some (.done len k.records.flatten) ∧
      len ≤ max (110 * size) (k.total + 20 * size) := by
  have hturn : Turn k size (max (110 * size) (k.total + 20 * size)) (100 * size) 0 :=
    ⟨by omega, Nat.zero_le _, fun h => absurd rfl h, by omega, fun _ => by omega⟩
  obtain ⟨len, hlen, hloop⟩ := sizingLoop_complete hrec (by omega) (k.total + 2) (100 * size) 0
    hturn (by unfold Turn.left; split <;> omega)
  exact ⟨k.total + 2, len, hloop, hlen⟩

/-- **The sizing loop of `get_ifi_info` ends with the complete list**, whatever the kernel refuses
at first, if no record is larger than the step by which the buffer grows.  The buffer is not
much larger than the list. -/
theorem sizing_complete (k : Ifconf) (size : ℕ)
    (hrec : ∀ r ∈ k.records, r.length ≤ 10 * size) :
    ∃ fuel len stored, sizing k.ioctl size fuel = some (.done len stored) ∧
      stored.length = k.total ∧ stored = k.records.flatten ∧
      len ≤ max (110 * size) (k.total + 20 * size) := by
  obtain ⟨fuel, len, hsizing, hlen⟩ := sizing_done k size hrec
  exact ⟨fuel, len, _, hsizing, rfl, rfl, hlen⟩

/-- Three records of two bytes each, in a kernel that refuses what is too small; a record may
have ten bytes. -/
def small : Ifconf where
  records := [[1, 1], [2, 2], [3, 3]]
  refuses len := decide (len < 6)
  lt_of_refuses h := of_decide_eq_true h
  refuses_of_le h hle := decide_eq_true (Nat.lt_of_le_of_lt hle (of_decide_eq_true h))

theorem sizing_complete_small :
    ∃ fuel len, sizing small.ioctl 1 fuel = some (.done len [1, 1, 2, 2, 3, 3]) ∧ len ≤ 110 := by
  obtain ⟨fuel, len, stored, hsizing, -, rfl, hlen⟩ := sizing_complete small 1 (by decide)
  exact ⟨fuel, len, hsizing, hlen⟩

end TcpIp.Ifi
