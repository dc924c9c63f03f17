import Mathlib.Logic.Function.Basic
import Mathlib.Tactic.Common

/-!
# Circular buffers

An array of `n` cells used as a queue: the item put in as number `k` (counted from
`0`) goes to the cell `k % n`, and the two indices of the program, which go back to
`0` behind the last cell, are the numbers of items put in and taken out, modulo `n`.

The history of the items put in is a list, so that the contents of the queue is the
part of it from some number on.  `Holds` says that the cells still have these items;
it survives a `put` as long as there are fewer than `n` of them.

## Main definitions

* `next n i` — the index after `i`.
* `Holds n cells hist g` — the items from number `g` on are in their cells.

## Main results

* `Holds.put`, `Holds.get`, `Holds.drop` — the operations of a queue.
* `mod_eq_mod_iff` — when the two indices meet.
-/

namespace Ring

variable {α : Type*} {n g k p : ℕ}

/-- The index after `i` in an array of `n` cells. -/
def next (n i : ℕ) : ℕ := if i + 1 = n then 0 else i + 1

/-- The same, with the test some programs make. -/
theorem next_eq_of_lt {i : ℕ} (hi : i < n) : next n i = if n ≤ i + 1 then 0 else i + 1 := by
  unfold next
  split
  · next hlast => rw [if_pos (Nat.le_of_eq hlast.symm)]
  · next hlast => rw [if_neg (by omega)]

theorem next_mod (hn : 0 < n) (k : ℕ) : next n (k % n) = (k + 1) % n := by
  have hlt : k % n < n := Nat.mod_lt k hn
  unfold next
  split
  · next hlast => rw [← Nat.mod_add_mod, hlast, Nat.mod_self]
  · next hlast =>
    have hfit : k % n + 1 < n := by omega
    rw [← Nat.mod_add_mod, Nat.mod_eq_of_lt hfit]

/-- **The indices meet when the queue is empty and when it is full.** -/
theorem mod_eq_mod_iff (hgp : g ≤ p) (hpn : p ≤ g + n) :
    p % n = g % n ↔ p = g ∨ p = g + n := by
  constructor
  · intro h
    obtain ⟨c, hc⟩ : n ∣ p - g := Nat.dvd_of_mod_eq_zero (Nat.sub_mod_eq_zero_of_mod_eq h)
    -- the distance is a multiple of `n`, and at most `n`
    match c, hc with
    | 0, hc => exact .inl (by omega)
    | 1, hc => exact .inr (by omega)
    | c + 2, hc =>
      rw [Nat.mul_add] at hc
      exact .inl (by omega)
  · rintro (rfl | rfl)
    · rfl
    · exact Nat.add_mod_right g n

/-- Items fewer than `n` apart are in different cells. -/
theorem mod_ne_mod (hgp : g < p) (hpn : p < g + n) : p % n ≠ g % n := by
  rw [Ne, mod_eq_mod_iff (Nat.le_of_lt hgp) (Nat.le_of_lt hpn)]
  omega

/-- The items of the history from number `g` on are in their cells. -/
def Holds (n : ℕ) (cells : ℕ → α) (hist : List α) (g : ℕ) : Prop :=
  ∀ k, g ≤ k → k < hist.length → hist[k]? = some (cells (k % n))

variable {cells cells' : ℕ → α} {hist : List α}

theorem holds_nil (n : ℕ) (cells : ℕ → α) (g : ℕ) : Holds n cells [] g := by
  intro k _ hk
  exact absurd hk (Nat.not_lt_zero k)

/-- Cells that hold no item may change. -/
theorem Holds.congr (h : Holds n cells hist g)
    (hcells : ∀ k, g ≤ k → k < hist.length → cells' (k % n) = cells (k % n)) :
    Holds n cells' hist g := by
  intro k hgk hk
  rw [h k hgk hk, hcells k hgk hk]

/-- The cell behind the last item is free while there is room. -/
theorem Holds.update (h : Holds n cells hist g) (hroom : hist.length < g + n) (x : α) :
    Holds n (Function.update cells (hist.length % n) x) hist g := by
  refine h.congr ?_
  intro k hgk hk
  have hnear : hist.length < k + n := by omega
  exact Function.update_of_ne (mod_ne_mod hk hnear).symm x cells

/-- **An item is put into the cell behind the last one.** -/
theorem Holds.put (h : Holds n cells hist g) (hroom : hist.length < g + n) (x : α) :
    Holds n (Function.update cells (hist.length % n) x) (hist ++ [x]) g := by
  intro k hgk hk
  rcases Nat.lt_or_ge k hist.length with hlt | hge
  · rw [List.getElem?_append_left hlt]
    exact h.update hroom x k hgk hlt
  · have hlast : k = hist.length := by
      rw [List.length_append, List.length_singleton] at hk
      omega
    subst hlast
    rw [List.getElem?_concat_length, Function.update_self]

/-- **The first item is in its cell.** -/
theorem Holds.get (h : Holds n cells hist g) (hg : g < hist.length) :
    hist[g]? = some (cells (g % n)) :=
  h g (Nat.le_refl g) hg

/-- The first item is given up. -/
theorem Holds.drop (h : Holds n cells hist g) : Holds n cells hist (g + 1) := by
  intro k hgk hk
  exact h k (Nat.le_of_succ_le hgk) hk

/-- The first `g` items and the one taken next are the first `g + 1`. -/
theorem take_succ_of_getElem? {x : α} (h : hist[g]? = some x) :
    hist.take (g + 1) = hist.take g ++ [x] := by
  rw [List.take_add_one, h, Option.toList_some]

end Ring
