import Mathlib.Algebra.Group.Nat.Defs
import Mathlib.Data.List.Basic
import Mathlib.Tactic.Common

/-!
# Reading numbers

A word is read as a number from its first character on.  Which characters are digits, and what
they stand for, is given by a function; a word with another character in it is no number.

## Main definitions

* `extend digit b n w` — the number that the digits of `w` make behind those of `n`.
* `numeral digit b w` — the number a word stands for.

## Main results

* `le_extend` — a number does not get smaller when digits are added to it.
* `numeral_toDigits` — the digits of a number are read back.
* `splitOn_cons_self`, `splitOn_cons_of_ne`, `splitOn_append_of_notMem` — a text is taken apart from
  its first character on.
-/

namespace Numeral

variable {digit : Char → Option ℕ} {b n m : ℕ} {c : Char} {w w' : List Char}

/-- The number that the digits of `w` make behind those of `n`. -/
def extend (digit : Char → Option ℕ) (b n : ℕ) (w : List Char) : Option ℕ :=
  w.foldlM (fun n c => (digit c).map (b * n + ·)) n

/-- The number that a word stands for. -/
def numeral (digit : Char → Option ℕ) (b : ℕ) (w : List Char) : Option ℕ := extend digit b 0 w

@[simp] theorem extend_nil : extend digit b n [] = some n := rfl

theorem extend_cons_of_some {d : ℕ} (h : digit c = some d) :
    extend digit b n (c :: w) = extend digit b (b * n + d) w := by
  simp [extend, h]

theorem extend_cons_of_none (h : digit c = none) : extend digit b n (c :: w) = none := by
  simp [extend, h]

theorem extend_append :
    extend digit b n (w ++ w') = (extend digit b n w).bind fun m => extend digit b m w' := by
  simp only [extend, List.foldlM_append]
  rfl

/-- A number does not get smaller when digits are added to it. -/
theorem le_extend (hb : 0 < b) : ∀ (w : List Char) (n : ℕ), extend digit b n w = some m →
    n ≤ m := by
  intro w
  induction w with
  | nil =>
    intro n h
    exact Nat.le_of_eq (Option.some.inj h)
  | cons c w ih =>
    intro n h
    cases hc : digit c with
    | none =>
      rw [extend_cons_of_none hc] at h
      cases h
    | some d =>
      rw [extend_cons_of_some hc] at h
      have hle := ih (b * n + d) h
      have hmul := Nat.le_mul_of_pos_left n hb
      omega

/-- One more digit. -/
theorem numeral_concat {d : ℕ} (h : numeral digit b w = some n) (hc : digit c = some d) :
    numeral digit b (w ++ [c]) = some (b * n + d) := by
  rw [numeral] at h ⊢
  rw [extend_append, h, Option.bind_some, extend_cons_of_some hc, extend_nil]

/-- All the characters of a number are digits. -/
theorem isSome_of_mem : ∀ (w : List Char) (n : ℕ), extend digit b n w = some m → c ∈ w →
    (digit c).isSome = true := by
  intro w
  induction w with
  | nil => intro n _ hc; cases hc
  | cons x w ih =>
    intro n h hc
    cases hx : digit x with
    | none =>
      rw [extend_cons_of_none hx] at h
      cases h
    | some d =>
      rw [extend_cons_of_some hx] at h
      rcases List.mem_cons.mp hc with rfl | hc
      · rw [hx]
        rfl
      · exact ih _ h hc

theorem notMem_of_none (h : numeral digit b w = some m) (hc : digit c = none) : c ∉ w := by
  intro hmem
  have hsome := isSome_of_mem w 0 h hmem
  rw [hc] at hsome
  cases hsome

/-- **The digits of a number are read back.** -/
theorem numeral_toDigits (hb : 1 < b) (hdigit : ∀ d < b, digit (Nat.digitChar d) = some d) :
    ∀ n, numeral digit b (Nat.toDigits b n) = some n := by
  intro n
  induction n using Nat.strongRecOn with
  | ind n ih =>
    rw [Nat.toDigits_eq_if hb]
    split
    · next hlt => rw [numeral, extend_cons_of_some (hdigit n hlt), extend_nil, Nat.mul_zero,
        Nat.zero_add]
    · next hge =>
      have hinit := ih (n / b) (Nat.div_lt_self (by omega) hb)
      have hlast := hdigit (n % b) (Nat.mod_lt n (by omega))
      rw [numeral] at hinit ⊢
      rw [extend_append, hinit, Option.bind_some, extend_cons_of_some hlast, extend_nil,
        Nat.div_add_mod]

/-! ### Taking a text apart -/

section Split

variable {α : Type*} [DecidableEq α] {a x : α}

theorem splitOn_cons_self (a : α) (s : List α) : (a :: s).splitOn a = [] :: s.splitOn a := by
  rw [List.splitOn_cons_eq_if_modifyHead, if_pos (beq_self_eq_true a)]

theorem splitOn_cons_of_ne (h : x ≠ a) (s : List α) :
    ∃ w ws, s.splitOn a = w :: ws ∧ (x :: s).splitOn a = (x :: w) :: ws := by
  obtain ⟨w, ws, hsplit⟩ := List.exists_cons_of_ne_nil (List.splitOn_ne_nil a s)
  refine ⟨w, ws, hsplit, ?_⟩
  rw [List.splitOn_cons_eq_if_modifyHead, if_neg (by simpa using h), hsplit, List.modifyHead_cons]

/-- A text with some characters in front of it that do not take it apart. -/
theorem splitOn_append_of_notMem (s : List α) : ∀ p : List α, a ∉ p →
    ∃ w ws, s.splitOn a = w :: ws ∧ (p ++ s).splitOn a = (p ++ w) :: ws := by
  intro p
  induction p with
  | nil =>
    intro _
    obtain ⟨w, ws, hsplit⟩ := List.exists_cons_of_ne_nil (List.splitOn_ne_nil a s)
    exact ⟨w, ws, hsplit, hsplit⟩
  | cons x p ih =>
    intro hp
    obtain ⟨hx, hp⟩ := not_or.mp (mt List.mem_cons.mpr hp)
    obtain ⟨w, ws, hs, hps⟩ := ih hp
    obtain ⟨w', ws', hw', hcons⟩ := splitOn_cons_of_ne (Ne.symm hx) (p ++ s)
    rw [hps] at hw'
    obtain ⟨rfl, rfl⟩ := List.cons.inj hw'
    exact ⟨w, ws, hs, hcons⟩

/-- A character that does not take the text apart is in one of the words. -/
theorem exists_mem_splitOn (h : x ≠ a) : ∀ s : List α, x ∈ s → ∃ w ∈ s.splitOn a, x ∈ w := by
  intro s
  induction s with
  | nil => intro hx; cases hx
  | cons y s ih =>
    intro hx
    by_cases hy : y = a
    · subst hy
      rw [splitOn_cons_self]
      rcases List.mem_cons.mp hx with rfl | hx
      · exact absurd rfl h
      · obtain ⟨w, hw, hxw⟩ := ih hx
        exact ⟨w, List.mem_cons_of_mem _ hw, hxw⟩
    · obtain ⟨w, ws, hs, hcons⟩ := splitOn_cons_of_ne hy s
      rw [hcons]
      rcases List.mem_cons.mp hx with rfl | hx
      · exact ⟨x :: w, List.mem_cons_self, List.mem_cons_self⟩
      · obtain ⟨v, hv, hxv⟩ := ih hx
        rw [hs] at hv
        rcases List.mem_cons.mp hv with rfl | hv
        · exact ⟨y :: v, List.mem_cons_self, List.mem_cons_of_mem y hxv⟩
        · exact ⟨v, List.mem_cons_of_mem _ hv, hxv⟩

end Split

end Numeral
