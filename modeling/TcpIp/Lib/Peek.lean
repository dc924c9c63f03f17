import Mathlib.Data.List.Basic
import TcpIp.Lib.Bytes

/-!
# Programs that look at a buffer

A program that is given a buffer learns of its contents by reading some bytes, and what
it reads next may depend on what it has read.  Such a program is a tree, with a reading
at each node and a branch for each outcome; for a given buffer it follows one branch.

## Main definitions

* `Peek α` — the programs with a result in `α`.
* `run`, `touched` — the result for a buffer, and the positions looked at.
* `Within n` — every position looked at is below `n`.

## Main results

* `within_bind` — the rule for one program behind another.
* `within_append`, `run_append` — **locality**: where a program looks at a first part of
  the buffer only, its result does not depend on the rest.
-/

universe u

/-- A program that reads bytes of a buffer. -/
inductive Peek (α : Type u) : Type u where
  | ret (a : α)
  /-- `w` bytes from the position `i` on are read. -/
  | read (i w : ℕ) (k : List UInt8 → Peek α)

namespace Peek

open Bytes (Order)

variable {α β : Type u} {buf msg rest : List UInt8} {i w n : ℕ} {o : Order}

/-- One program behind the other. -/
protected def bind (p : Peek α) (f : α → Peek β) : Peek β :=
  match p with
  | ret a => f a
  | read i w k => read i w fun bs => (k bs).bind f

instance : Monad Peek where
  pure := ret
  bind := Peek.bind

/-- The result for a buffer. -/
def run (buf : List UInt8) : Peek α → α
  | ret a => a
  | read i w k => run buf (k (Bytes.slice buf i w))

/-- The positions that are looked at. -/
def touched (buf : List UInt8) : Peek α → List ℕ
  | ret _ => []
  | read i w k => List.range' i w ++ touched buf (k (Bytes.slice buf i w))

/-- Every position that is looked at is below `n`. -/
def Within (n : ℕ) (buf : List UInt8) (p : Peek α) : Prop := ∀ i ∈ touched buf p, i < n

instance (n : ℕ) (buf : List UInt8) (p : Peek α) : Decidable (Within n buf p) :=
  inferInstanceAs (Decidable (∀ i ∈ touched buf p, i < n))

/-! ### Reading -/

/-- Some bytes. -/
def slice (i w : ℕ) : Peek (List UInt8) := read i w ret

/-- One byte. -/
def byte (i : ℕ) : Peek ℕ := read i 1 fun bs => ret (Bytes.ofLowBytes bs)

/-- The number in some bytes. -/
def get (o : Order) (i w : ℕ) : Peek ℕ := read i w fun bs => ret (o.dec bs)

theorem ofLowBytes_slice_one (buf : List UInt8) (i : ℕ) :
    Bytes.ofLowBytes (Bytes.slice buf i 1) = Bytes.byte buf i := by
  rw [Bytes.slice, Bytes.byte, List.getD_eq_getElem?_getD, ← List.head?_drop]
  cases buf.drop i with
  | nil => rfl
  | cons b bs => simp [Bytes.ofLowBytes]

@[simp] theorem run_pure (a : α) : run buf (pure a) = a := rfl

@[simp] theorem run_byte : run buf (byte i) = Bytes.byte buf i := ofLowBytes_slice_one buf i

@[simp] theorem run_get : run buf (get o i w) = Bytes.get o buf i w := rfl

@[simp] theorem run_bind (p : Peek α) (f : α → Peek β) :
    run buf (p >>= f) = run buf (f (run buf p)) := by
  induction p with
  | ret a => rfl
  | read i w k ih => exact ih (Bytes.slice buf i w)

theorem touched_bind (p : Peek α) (f : α → Peek β) :
    touched buf (p >>= f) = touched buf p ++ touched buf (f (run buf p)) := by
  induction p with
  | ret a => rfl
  | read i w k ih =>
    have hk := ih (Bytes.slice buf i w)
    exact (congrArg (List.range' i w ++ ·) hk).trans (List.append_assoc ..).symm

/-! ### Staying below a bound -/

theorem within_read (k : List UInt8 → Peek α) : Within n buf (read i w k) ↔
    (w = 0 ∨ i + w ≤ n) ∧ Within n buf (k (Bytes.slice buf i w)) := by
  have hrange : (∀ j ∈ List.range' i w, j < n) ↔ w = 0 ∨ i + w ≤ n := by
    simp only [List.mem_range'_1]
    constructor
    · intro h
      rcases Nat.eq_zero_or_pos w with hw | hw
      · exact .inl hw
      · have hlast := h (i + w - 1) (by omega)
        exact .inr (by omega)
    · intro h j hj
      omega
  rw [← hrange]
  exact List.forall_mem_append

@[simp] theorem within_pure (a : α) : Within n buf (pure a) :=
  fun _ hi => absurd hi List.not_mem_nil

@[simp] theorem within_bind (p : Peek α) (f : α → Peek β) :
    Within n buf (p >>= f) ↔ Within n buf p ∧ Within n buf (f (run buf p)) := by
  unfold Within
  rw [touched_bind]
  exact List.forall_mem_append

theorem within_slice (hw : 0 < w) : Within n buf (slice i w) ↔ i + w ≤ n := by
  rw [slice, within_read, or_iff_right (by omega)]
  exact and_iff_left (within_pure _)

@[simp] theorem within_byte : Within n buf (byte i) ↔ i < n := by
  rw [byte, within_read, or_iff_right (by omega)]
  exact and_iff_left (within_pure _)

theorem within_get (hw : 0 < w) : Within n buf (get o i w) ↔ i + w ≤ n := by
  rw [get, within_read, or_iff_right (by omega)]
  exact and_iff_left (within_pure _)

/-! ### Locality -/

/-- A read within the message gives bytes of the message. -/
theorem slice_append_of_within (h : w = 0 ∨ i + w ≤ msg.length) :
    Bytes.slice (msg ++ rest) i w = Bytes.slice msg i w := by
  rcases h with rfl | h
  · rw [Bytes.slice, Bytes.slice, List.take_zero, List.take_zero]
  · exact Bytes.slice_append h

/-- Whether a program leaves the message is decided by the message. -/
theorem within_append (p : Peek α) :
    Within msg.length (msg ++ rest) p ↔ Within msg.length msg p := by
  induction p with
  | ret a => exact iff_of_true (within_pure a) (within_pure a)
  | read i w k ih =>
    rw [within_read, within_read]
    refine and_congr_right fun hin => ?_
    rw [slice_append_of_within hin]
    exact ih _

/-- **Where a program looks at the message only, the rest of the buffer does not matter.** -/
theorem run_append (p : Peek α) (h : Within msg.length msg p) :
    run (msg ++ rest) p = run msg p := by
  induction p with
  | ret a => rfl
  | read i w k ih =>
    obtain ⟨hin, hk⟩ := (within_read k).mp h
    rw [run, run, slice_append_of_within hin]
    exact ih _ hk

end Peek
