import Mathlib.Data.Int.Notation
import Mathlib.Logic.Function.Basic
import Mathlib.Tactic.Common

/-!
# Tables of records

A table of `n` records is a function on the indices below `n`.  Programs keep counters
of the records in some state, which have to agree with the table after every change of
one record, and look for the first record in some state.

## Main definitions

* `tally p f n` — the number of records that satisfy `p`.
* `first p f n` — the index of the first one.
* `Listed p key f n set` — a set of the keys of the records that satisfy `p`.

## Main results

* `update_eq_iff` — what is found after a change of one record.
* `tally_update`, `counter_update` — how a change of one record changes the number.
* `Listed.insert`, `Listed.erase`, `Listed.keep` — how it changes the set.
* `tally_pos_iff`, `first_eq_none_iff` — the number is positive exactly if the search
  finds a record.
-/

namespace Table

variable {α : Type*} {p q : α → Bool} {f g : ℕ → α} {n i : ℕ} {x : α}

/-- What is found in a table in which one record has been changed. -/
theorem update_eq_iff {ι : Type*} [DecidableEq ι] {f : ι → α} {i j : ι} {x y : α} :
    Function.update f i x j = y ↔ j = i ∧ x = y ∨ j ≠ i ∧ f j = y := by
  rcases eq_or_ne j i with rfl | hne
  · simp
  · simp [hne]

/-- The number of indices below `n` whose record satisfies `p`. -/
def tally (p : α → Bool) (f : ℕ → α) : ℕ → ℕ
  | 0 => 0
  | n + 1 => tally p f n + (p (f n)).toNat

@[simp] theorem tally_zero : tally p f 0 = 0 := rfl

theorem tally_succ : tally p f (n + 1) = tally p f n + (p (f n)).toNat := rfl

/-- Only the tests count, and only those below `n`. -/
theorem tally_congr (h : ∀ i < n, p (f i) = q (g i)) : tally p f n = tally q g n := by
  induction n with
  | zero => rfl
  | succ n ih =>
    rw [tally_succ, tally_succ, h n (Nat.lt_succ_self n),
      ih fun i hi => h i (Nat.lt_succ_of_lt hi)]

/-- A record outside the table does not count. -/
theorem tally_update_of_le (hi : n ≤ i) : tally p (Function.update f i x) n = tally p f n := by
  apply tally_congr
  intro j hj
  rw [Function.update_of_ne (by omega)]

/-- **One record is changed.** -/
theorem tally_update (hi : i < n) :
    tally p (Function.update f i x) n + (p (f i)).toNat = tally p f n + (p x).toNat := by
  induction n with
  | zero => exact absurd hi (Nat.not_lt_zero i)
  | succ n ih =>
    rw [tally_succ, tally_succ]
    rcases Nat.lt_or_ge i n with hlt | hge
    · rw [Function.update_of_ne (by omega)]
      have := ih hlt
      omega
    · have heq : i = n := by omega
      subst heq
      rw [Function.update_self, tally_update_of_le (Nat.le_refl i)]
      omega

/-- A counter that agrees with the table is changed with the record. -/
theorem counter_update {c c' : ℤ} (h : c = tally p f n) (hi : i < n)
    (hc : c' = c + (p x).toNat - (p (f i)).toNat) : c' = tally p (Function.update f i x) n := by
  have htally := tally_update (p := p) (f := f) (x := x) hi
  omega

theorem tally_eq_zero_iff : tally p f n = 0 ↔ ∀ i < n, p (f i) = false := by
  induction n with
  | zero => simp
  | succ n ih =>
    rw [tally_succ, Nat.add_eq_zero_iff, ih, Nat.forall_lt_succ_right, Bool.toNat_eq_zero]

theorem tally_pos_iff : 0 < tally p f n ↔ ∃ i < n, p (f i) = true := by
  rw [Nat.pos_iff_ne_zero, Ne, tally_eq_zero_iff]
  simp

theorem tally_eq_of_forall (h : ∀ i < n, p (f i) = true) : tally p f n = n := by
  induction n with
  | zero => rfl
  | succ n ih =>
    rw [tally_succ, h n (Nat.lt_succ_self n), ih fun i hi => h i (Nat.lt_succ_of_lt hi)]
    rfl

theorem tally_le (p : α → Bool) (f : ℕ → α) (n : ℕ) : tally p f n ≤ n := by
  induction n with
  | zero => exact Nat.le_refl 0
  | succ n ih =>
    have := Bool.toNat_le (p (f n))
    rw [tally_succ]
    omega

theorem tally_le_of_le {m : ℕ} (hle : m ≤ n) : tally p f m ≤ tally p f n := by
  induction n with
  | zero =>
    obtain rfl := Nat.le_zero.mp hle
    exact Nat.le_refl _
  | succ n ih =>
    rcases Nat.le_succ_iff.mp hle with hle | rfl
    · exact Nat.le_trans (ih hle) (Nat.le_add_right ..)
    · exact Nat.le_refl _

/-- A weaker test counts at least as many records, and the same number exactly if it is
not weaker on the table. -/
theorem tally_le_tally (h : ∀ i < n, p (f i) = true → q (f i) = true) :
    tally p f n ≤ tally q f n ∧
      (tally p f n = tally q f n ↔ ∀ i < n, q (f i) = true → p (f i) = true) := by
  induction n with
  | zero => simp
  | succ n ih =>
    obtain ⟨hle, hiff⟩ := ih fun i hi => h i (Nat.lt_succ_of_lt hi)
    have hlast := h n (Nat.lt_succ_self n)
    rw [tally_succ, tally_succ, Nat.forall_lt_succ_right, ← hiff]
    cases hp : p (f n) with
    | true =>
      rw [hlast hp]
      simp [hle]
    | false =>
      cases hq : q (f n) with
      | true =>
        simp only [Bool.toNat_false, Bool.toNat_true]
        refine ⟨by omega, iff_of_false (by omega) ?_⟩
        simp
      | false => simp [hle]

/-- One record satisfies `p`. -/
theorem tally_eq_one (hi : i < n) (hp : ∀ j < n, p (f j) = true ↔ j = i) : tally p f n = 1 := by
  induction n with
  | zero => exact absurd hi (Nat.not_lt_zero i)
  | succ n ih =>
    rw [tally_succ]
    rcases Nat.lt_succ_iff_lt_or_eq.mp hi with hlt | rfl
    · have hlast : p (f n) = false := by
        rw [Bool.eq_false_iff, ne_eq, hp n (Nat.lt_succ_self n)]
        omega
      rw [ih hlt fun j hj => hp j (Nat.lt_succ_of_lt hj), hlast, Bool.toNat_false]
    · have hnone : tally p f i = 0 := by
        refine tally_eq_zero_iff.mpr fun j hj => ?_
        rw [Bool.eq_false_iff, ne_eq, hp j (Nat.lt_succ_of_lt hj)]
        omega
      rw [hnone, (hp i (Nat.lt_succ_self i)).mpr rfl, Bool.toNat_true]

/-- Two records that satisfy `p` are the same if there is at most one. -/
theorem eq_of_tally_le_one {j : ℕ} (h : tally p f n ≤ 1) (hi : i < n) (hj : j < n)
    (hpi : p (f i) = true) (hpj : p (f j) = true) : i = j := by
  induction n with
  | zero => exact absurd hi (Nat.not_lt_zero i)
  | succ n ih =>
    rw [tally_succ] at h
    rcases Nat.lt_succ_iff_lt_or_eq.mp hi with hin | rfl
    · rcases Nat.lt_succ_iff_lt_or_eq.mp hj with hjn | rfl
      · exact ih (by omega) hin hjn
      · have := tally_pos_iff.mpr ⟨i, hin, hpi⟩
        rw [hpj, Bool.toNat_true] at h
        omega
    · rcases Nat.lt_succ_iff_lt_or_eq.mp hj with hjn | rfl
      · have := tally_pos_iff.mpr ⟨j, hjn, hpj⟩
        rw [hpi, Bool.toNat_true] at h
        omega
      · rfl

/-! ### Searching -/

/-- The least index below `n` whose record satisfies `p`. -/
def first (p : α → Bool) (f : ℕ → α) (n : ℕ) : Option ℕ :=
  (List.range n).find? fun i => p (f i)

theorem first_eq_some (h : first p f n = some i) : i < n ∧ p (f i) = true := by
  have hmem := List.mem_of_find?_eq_some h
  exact ⟨List.mem_range.mp hmem, List.find?_some (p := fun i => p (f i)) h⟩

/-- The search stops at the first record that satisfies `p`. -/
theorem first_eq_some_of (hi : i < n) (hpi : p (f i) = true) (hlt : ∀ j < i, p (f j) = false) :
    first p f n = some i := by
  rw [first, List.find?_range_eq_some]
  refine ⟨hpi, List.mem_range.mpr hi, ?_⟩
  intro j hj
  rw [hlt j hj]
  rfl

theorem of_lt_first {j : ℕ} (h : first p f n = some i) (hj : j < i) : p (f j) = false := by
  rw [first, List.find?_range_eq_some] at h
  simpa using h.2.2 j hj

theorem first_eq_none_iff : first p f n = none ↔ ∀ i < n, p (f i) = false := by
  simp [first]

/-- The search fails exactly if there is nothing to count. -/
theorem first_eq_none_iff_tally : first p f n = none ↔ tally p f n = 0 := by
  rw [first_eq_none_iff, tally_eq_zero_iff]

/-- The lowest index that is not in use. -/
def Lowest (used : ℕ → Bool) (i : ℕ) : Prop := used i = false ∧ ∀ j < i, used j = true

instance (used : ℕ → Bool) (i : ℕ) : Decidable (Lowest used i) :=
  inferInstanceAs (Decidable (_ ∧ _))

/-- It is below `n` exactly if not all of the indices there are in use. -/
theorem Lowest.lt_iff {used : ℕ → Bool} (h : Lowest used i) :
    i < n ↔ ∃ j < n, used j = false := by
  constructor
  · exact fun hi => ⟨i, hi, h.1⟩
  · rintro ⟨j, hj, hfree⟩
    refine Nat.lt_of_le_of_lt (Nat.le_of_not_lt fun hji => ?_) hj
    rw [h.2 j hji] at hfree
    cases hfree

/-! ### Sets of keys -/

section Keys

variable {κ : Type*} {key : α → κ} {set : κ → Bool}

/-- The set holds the keys of the records that satisfy `p`, and nothing else. -/
def Listed (p : α → Bool) (key : α → κ) (f : ℕ → α) (n : ℕ) (set : κ → Bool) : Prop :=
  ∀ k, set k = true ↔ ∃ i < n, p (f i) = true ∧ key (f i) = k

/-- A record that does not begin or cease to satisfy `p`. -/
theorem Listed.keep (h : Listed p key f n set) (hi : i < n) (hp : p x = p (f i))
    (hkey : p x = true → key x = key (f i)) : Listed p key (Function.update f i x) n set := by
  intro k
  rw [h k]
  constructor
  · rintro ⟨j, hj, hpj, hk⟩
    rcases eq_or_ne j i with rfl | hne
    · have hpx : p x = true := hp.trans hpj
      exact ⟨j, hj, by rw [Function.update_self]; exact ⟨hpx, (hkey hpx).trans hk⟩⟩
    · exact ⟨j, hj, by rw [Function.update_of_ne hne]; exact ⟨hpj, hk⟩⟩
  · rintro ⟨j, hj, hpj, hk⟩
    rcases eq_or_ne j i with rfl | hne
    · rw [Function.update_self] at hpj hk
      exact ⟨j, hj, hp.symm.trans hpj, (hkey hpj).symm.trans hk⟩
    · rw [Function.update_of_ne hne] at hpj hk
      exact ⟨j, hj, hpj, hk⟩

variable [DecidableEq κ]

/-- **A record begins to satisfy `p`**, and its key is put into the set. -/
theorem Listed.insert (h : Listed p key f n set) (hi : i < n) (hold : p (f i) = false)
    (hx : p x = true) :
    Listed p key (Function.update f i x) n (Function.update set (key x) true) := by
  intro k
  constructor
  · intro hk
    rcases eq_or_ne k (key x) with rfl | hne
    · exact ⟨i, hi, by rw [Function.update_self]; exact ⟨hx, rfl⟩⟩
    · rw [Function.update_of_ne hne] at hk
      obtain ⟨j, hj, hpj, hkey⟩ := (h k).mp hk
      have hji : j ≠ i := by
        rintro rfl
        rw [hold] at hpj
        cases hpj
      exact ⟨j, hj, by rw [Function.update_of_ne hji]; exact ⟨hpj, hkey⟩⟩
  · rintro ⟨j, hj, hpj, hkey⟩
    rcases eq_or_ne k (key x) with rfl | hne
    · exact Function.update_self ..
    · have hji : j ≠ i := by
        rintro rfl
        rw [Function.update_self] at hkey
        exact hne hkey.symm
      rw [Function.update_of_ne hji] at hpj hkey
      rw [Function.update_of_ne hne]
      exact (h k).mpr ⟨j, hj, hpj, hkey⟩

/-- **A record ceases to satisfy `p`**, and its key, which no other record has, is taken
out of the set. -/
theorem Listed.erase (h : Listed p key f n set) (hx : p x = false)
    (hunique : ∀ j < n, p (f j) = true → key (f j) = key (f i) → j = i) :
    Listed p key (Function.update f i x) n (Function.update set (key (f i)) false) := by
  intro k
  constructor
  · intro hk
    have hne : k ≠ key (f i) := by
      rintro rfl
      rw [Function.update_self] at hk
      cases hk
    rw [Function.update_of_ne hne] at hk
    obtain ⟨j, hj, hpj, hkey⟩ := (h k).mp hk
    have hji : j ≠ i := by
      rintro rfl
      exact hne hkey.symm
    exact ⟨j, hj, by rw [Function.update_of_ne hji]; exact ⟨hpj, hkey⟩⟩
  · rintro ⟨j, hj, hpj, hkey⟩
    have hji : j ≠ i := by
      rintro rfl
      rw [Function.update_self, hx] at hpj
      cases hpj
    rw [Function.update_of_ne hji] at hpj hkey
    have hne : k ≠ key (f i) := by
      rintro rfl
      exact hji (hunique j hj hpj hkey)
    rw [Function.update_of_ne hne]
    exact (h k).mpr ⟨j, hj, hpj, hkey⟩

end Keys

end Table
