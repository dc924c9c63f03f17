import Mathlib.Data.List.Basic
import Mathlib.Tactic.Common

/-!
# Buffers

Memory that is written to by calls that store some items at a position, and a buffer
with two pointers into such memory: items are stored behind the in pointer and handed
on from the out pointer, and both go back to the start when the pointers meet.

## Main definitions

* `writeAt` — memory after some items have been stored.
* `Buf` — a buffer with two pointers.
* `Buf.Carries` — the items between the pointers are those taken in and not handed on.

## Main results

* `Buf.Carries.put`, `Buf.Carries.take` — the two operations.
-/

namespace Buffer

variable {α : Type*} {mem bs : List α} {i n : ℕ}

/-- Memory after `bs` has been stored at the position `i`. -/
def writeAt (mem : List α) (i : ℕ) (bs : List α) : List α :=
  mem.take i ++ bs ++ mem.drop (i + bs.length)

theorem length_writeAt (h : i + bs.length ≤ mem.length) :
    (writeAt mem i bs).length = mem.length := by
  simp only [writeAt, List.length_append, List.length_take, List.length_drop]
  omega

/-- What is in memory up to the end of the items stored. -/
theorem take_writeAt (h : i ≤ mem.length) :
    (writeAt mem i bs).take (i + bs.length) = mem.take i ++ bs := by
  have hlen : (mem.take i ++ bs).length = i + bs.length := by
    rw [List.length_append, List.length_take, Nat.min_eq_left h]
  rw [writeAt, ← hlen, List.take_left]

/-- Items stored at the start. -/
@[simp] theorem take_writeAt_zero (mem bs : List α) : (writeAt mem 0 bs).take bs.length = bs := by
  simp [writeAt]

/-- What is in front of the items stored. -/
theorem take_writeAt_self (h : i ≤ mem.length) : (writeAt mem i bs).take i = mem.take i := by
  have hi : (mem.take i).length = i := by rw [List.length_take, Nat.min_eq_left h]
  rw [writeAt, List.append_assoc, List.take_append_of_le_length (Nat.le_of_eq hi.symm),
    List.take_take, Nat.min_self]

/-- The items stored, and what is behind them. -/
theorem drop_writeAt_self (h : i ≤ mem.length) :
    (writeAt mem i bs).drop i = bs ++ mem.drop (i + bs.length) := by
  have hi : (mem.take i).length = i := by rw [List.length_take, Nat.min_eq_left h]
  rw [writeAt, List.append_assoc, List.drop_left' hi]

/-- What is behind the items stored. -/
theorem drop_writeAt {j : ℕ} (h : i ≤ mem.length) (hj : i + bs.length ≤ j) :
    (writeAt mem i bs).drop j = mem.drop j := by
  obtain ⟨k, rfl⟩ := Nat.exists_eq_add_of_le hj
  rw [← List.drop_drop, ← List.drop_drop, drop_writeAt_self h, List.drop_left, List.drop_drop]

/-- A part of the memory is overwritten. -/
theorem writeAt_append {as bs' cs : List α} (h : bs'.length = bs.length) :
    writeAt (as ++ (bs ++ cs)) as.length bs' = as ++ (bs' ++ cs) := by
  rw [writeAt, List.take_left, h, ← List.append_assoc as bs cs, ← List.length_append,
    List.drop_left, List.append_assoc]

/-- What is stored twice at one place. -/
theorem writeAt_writeAt {bs' : List α} (h : i + bs.length ≤ mem.length)
    (hlen : bs'.length = bs.length) :
    writeAt (writeAt mem i bs) i bs' = writeAt mem i bs' := by
  have hi : (mem.take i).length = i := by
    rw [List.length_take]
    omega
  have hover : writeAt (mem.take i ++ (bs ++ mem.drop (i + bs.length))) i bs'
      = mem.take i ++ (bs' ++ mem.drop (i + bs.length)) := by
    have hat := @writeAt_append _ bs (mem.take i) bs' (mem.drop (i + bs.length)) hlen
    rw [hi] at hat
    exact hat
  simp only [writeAt, List.append_assoc, hlen] at hover ⊢
  exact hover

/-- Memory that has been cleared is filled from the start. -/
theorem writeAt_replicate (as bs : List α) (n : ℕ) (x : α) :
    writeAt (as ++ List.replicate n x) as.length bs =
      as ++ bs ++ List.replicate (n - bs.length) x := by
  rw [writeAt, List.take_left, ← List.drop_drop, List.drop_left, List.drop_replicate]

/-- A buffer with two pointers. -/
structure Buf (α : Type*) where
  mem : List α
  /-- Where the next items are stored. -/
  iptr : ℕ
  /-- The first item that has not been handed on. -/
  optr : ℕ

namespace Buf

/-- An empty buffer. -/
def empty (mem : List α) : Buf α := ⟨mem, 0, 0⟩

/-- The items between the pointers. -/
def pending (b : Buf α) : List α := (b.mem.take b.iptr).drop b.optr

/-- Items are stored behind the in pointer. -/
def put (b : Buf α) (bs : List α) : Buf α :=
  { b with mem := writeAt b.mem b.iptr bs, iptr := b.iptr + bs.length }

/-- The first `k` items have been handed on. -/
def take (b : Buf α) (k : ℕ) : Buf α :=
  if b.optr + k = b.iptr then { b with iptr := 0, optr := 0 } else { b with optr := b.optr + k }

/-- A buffer of `n` items that has taken in `taken` and handed on `given`. -/
structure Carries (n : ℕ) (b : Buf α) (taken given : List α) : Prop where
  length_eq : b.mem.length = n
  optr_le : b.optr ≤ b.iptr
  iptr_le : b.iptr ≤ n
  taken_eq : taken = given ++ b.pending

variable {b : Buf α} {taken given : List α}

theorem carries_empty (h : mem.length = n) : (empty mem).Carries n [] [] :=
  ⟨h, Nat.le_refl 0, Nat.zero_le n, rfl⟩

theorem Carries.length_pending (h : b.Carries n taken given) :
    b.pending.length = b.iptr - b.optr := by
  rw [pending, List.length_drop, List.length_take, h.length_eq, Nat.min_eq_left h.iptr_le]

/-- Everything has been handed on when the pointers meet. -/
theorem Carries.eq_iff (h : b.Carries n taken given) : given = taken ↔ b.optr = b.iptr := by
  have hle := h.optr_le
  rw [h.taken_eq, List.self_eq_append_right, ← List.length_eq_zero_iff, h.length_pending]
  omega

/-- What has been handed on is an initial part of what has been taken in. -/
theorem Carries.isPrefix (h : b.Carries n taken given) : given <+: taken :=
  ⟨b.pending, h.taken_eq.symm⟩

/-- **Items are taken in.** -/
theorem Carries.put (h : b.Carries n taken given) (hroom : b.iptr + bs.length ≤ n) :
    (b.put bs).Carries n (taken ++ bs) given where
  length_eq := by
    rw [Buf.put, length_writeAt (by rw [h.length_eq]; exact hroom)]
    exact h.length_eq
  optr_le := Nat.le_add_right_of_le h.optr_le
  iptr_le := hroom
  taken_eq := by
    have hlen : b.optr ≤ (b.mem.take b.iptr).length := by
      rw [List.length_take, h.length_eq, Nat.min_eq_left h.iptr_le]
      exact h.optr_le
    have hpending : (b.put bs).pending = b.pending ++ bs := by
      simp only [Buf.put, pending]
      rw [take_writeAt (by rw [h.length_eq]; exact h.iptr_le), List.drop_append_of_le_length hlen]
    rw [hpending, h.taken_eq, List.append_assoc]

/-- **Items are handed on.** -/
theorem Carries.take {k : ℕ} (h : b.Carries n taken given) (hk : k ≤ b.pending.length) :
    (b.take k).Carries n taken (given ++ b.pending.take k) := by
  have hle := h.optr_le
  have hlen := h.length_pending
  have hsplit : taken = given ++ b.pending.take k ++ b.pending.drop k := by
    rw [List.append_assoc, List.take_append_drop]
    exact h.taken_eq
  unfold Buf.take
  split
  · next hall =>
    refine ⟨h.length_eq, Nat.le_refl 0, Nat.zero_le n, ?_⟩
    have hnil : b.pending.drop k = [] := List.drop_eq_nil_of_le (by omega)
    rw [hnil] at hsplit
    exact hsplit
  · refine ⟨h.length_eq, by simp only; omega, h.iptr_le, ?_⟩
    simpa only [pending, List.drop_drop] using hsplit

end Buf

end Buffer
