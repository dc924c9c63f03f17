import Mathlib.Data.Nat.ModEq
import Mathlib.Tactic.Common

/-!
# Ones' complement sums

In ones' complement arithmetic over words up to `m`, where `m` has all bits set, the carry
out of an addition is added in again at the other end.  The sum of some words is then
their sum modulo `m`, where zero stands for itself only and `m` for its other multiples.

## Main definitions

* `norm m n` — the word that stands for `n`.
* `add`, `sum` — the addition with an end-around carry, and the sum of some words.
* `total` — the sum as a number.

## Main results

* `sum_eq_norm` — **carries may be deferred**: the sum of some words is that of a number.
* `fold_eq_norm` — a number of two words, folded twice, is a word.
* `norm_total_map_swap` — the sum of words with their halves exchanged is that of the words
  with its halves exchanged.
* `norm_add_compl` — a sum and its complement make up `m`.
-/

namespace OnesComplement

variable {m n a b c k w : ℕ}

/-- The word that stands for `n`. -/
def norm (m n : ℕ) : ℕ := if n = 0 then 0 else (n - 1) % m + 1

/-- An addition with an end-around carry. -/
def add (m a b : ℕ) : ℕ := if a + b ≤ m then a + b else a + b - m

/-- The sum of some words. -/
def sum (m : ℕ) (ws : List ℕ) : ℕ := ws.foldl (add m) 0

/-- The sum of some words as a number. -/
def total : List ℕ → ℕ
  | [] => 0
  | w :: ws => w + total ws

/-! ### The word that stands for a number -/

@[simp] theorem norm_zero : norm m 0 = 0 := rfl

theorem norm_congr (hmod : a ≡ b [MOD m]) (hzero : a = 0 ↔ b = 0) : norm m a = norm m b := by
  rcases Nat.eq_zero_or_pos a with ha | ha
  · rw [ha, hzero.mp ha]
  · have hb : 0 < b := Nat.pos_of_ne_zero fun h => (Nat.ne_of_gt ha) (hzero.mpr h)
    have hpred : a - 1 ≡ b - 1 [MOD m] := by
      refine Nat.ModEq.add_right_cancel' 1 ?_
      rwa [Nat.sub_add_cancel ha, Nat.sub_add_cancel hb]
    rw [norm, norm, if_neg (Nat.ne_of_gt ha), if_neg (Nat.ne_of_gt hb), hpred]

theorem norm_of_le (h : n ≤ m) : norm m n = n := by
  rcases Nat.eq_zero_or_pos n with hn | hn
  · rw [hn, norm_zero]
  · rw [norm, if_neg (by omega), Nat.mod_eq_of_lt (by omega)]
    omega

theorem norm_le (hm : 0 < m) (n : ℕ) : norm m n ≤ m := by
  unfold norm
  split
  · omega
  · exact Nat.mod_lt _ hm

theorem norm_eq_zero_iff : norm m n = 0 ↔ n = 0 := by
  unfold norm
  split <;> omega

theorem norm_le_self (m n : ℕ) : norm m n ≤ n := by
  unfold norm
  split
  · omega
  · have := Nat.mod_le (n - 1) m
    omega

theorem norm_modEq (m n : ℕ) : norm m n ≡ n [MOD m] := by
  unfold norm
  split
  · next h => rw [h]
  · next h =>
    have hpred := (Nat.mod_modEq (n - 1) m).add_right 1
    rwa [Nat.sub_add_cancel (Nat.pos_of_ne_zero h)] at hpred

theorem norm_norm_add (m a b : ℕ) : norm m (norm m a + b) = norm m (a + b) := by
  refine norm_congr ((norm_modEq m a).add_right b) ?_
  have := @norm_eq_zero_iff m a
  omega

/-- A multiple of `m` may be left out. -/
theorem norm_mul_add (hn : n = 0 → k = 0) : norm m (m * k + n) = norm m n := by
  refine norm_congr (Nat.mul_add_mod ..) ?_
  constructor
  · omega
  · intro h
    rw [h, hn h, Nat.mul_zero]

/-! ### Sums -/

theorem add_eq_norm (ha : a ≤ m) (hb : b ≤ m) : add m a b = norm m (a + b) := by
  unfold add
  split
  · next h => exact (norm_of_le h).symm
  · next h =>
    have hcarry : m * 1 + (a + b - m) = a + b := by omega
    rw [← hcarry, norm_mul_add (by omega), norm_of_le (by omega)]
    omega

theorem foldl_add_eq_norm (hm : 0 < m) : ∀ (ws : List ℕ) (a : ℕ), (∀ w ∈ ws, w ≤ m) →
    ws.foldl (add m) (norm m a) = norm m (a + total ws) := by
  intro ws
  induction ws with
  | nil => intro a _; rfl
  | cons w ws ih =>
    intro a hws
    rw [List.foldl_cons, add_eq_norm (norm_le hm a) (hws w List.mem_cons_self), norm_norm_add,
      ih (a + w) fun v hv => hws v (List.mem_cons_of_mem w hv), total, Nat.add_assoc]

/-- **The carries may be deferred.** -/
theorem sum_eq_norm (hm : 0 < m) {ws : List ℕ} (hws : ∀ w ∈ ws, w ≤ m) :
    sum m ws = norm m (total ws) := by
  have h := foldl_add_eq_norm hm ws 0 hws
  rwa [Nat.zero_add] at h

theorem total_append (vs ws : List ℕ) : total (vs ++ ws) = total vs + total ws := by
  induction vs with
  | nil => rw [List.nil_append, total, Nat.zero_add]
  | cons v vs ih => rw [List.cons_append, total, total, ih, Nat.add_assoc]

theorem total_le {ws : List ℕ} (hws : ∀ w ∈ ws, w ≤ m) : total ws ≤ ws.length * m := by
  induction ws with
  | nil => exact Nat.zero_le _
  | cons w ws ih =>
    have hw := hws w List.mem_cons_self
    have hrest := ih fun v hv => hws v (List.mem_cons_of_mem w hv)
    rw [total, List.length_cons, Nat.succ_mul]
    omega

/-! ### Folding -/

/-- The upper word is added to the lower one. -/
theorem norm_fold (m n : ℕ) : norm m (n / (m + 1) + n % (m + 1)) = norm m n := by
  have hdiv := Nat.div_add_mod n (m + 1)
  generalize n / (m + 1) = high at hdiv ⊢
  generalize n % (m + 1) = low at hdiv ⊢
  rw [Nat.succ_mul, Nat.add_assoc] at hdiv
  rw [← hdiv, norm_mul_add (by omega)]

/-- **A number of two words, folded twice.** -/
theorem fold_eq_norm (hn : n < (m + 1) * (m + 1)) :
    (n / (m + 1) + n % (m + 1) + (n / (m + 1) + n % (m + 1)) / (m + 1)) % (m + 1) =
      norm m n := by
  have hhigh : n / (m + 1) < m + 1 := Nat.div_lt_of_lt_mul hn
  have hlow : n % (m + 1) < m + 1 := Nat.mod_lt _ (by omega)
  rw [← norm_fold m n]
  generalize n / (m + 1) = high at hhigh ⊢
  generalize n % (m + 1) = low at hlow ⊢
  rcases Nat.lt_or_ge (high + low) (m + 1) with hlt | hge
  · rw [Nat.div_eq_of_lt hlt, Nat.add_zero, Nat.mod_eq_of_lt hlt, norm_of_le (by omega)]
  · -- the first fold leaves a carry, and the second does not
    obtain ⟨t, ht⟩ := Nat.exists_eq_add_of_le hge
    have hone : (m + 1 + t) / (m + 1) = 1 := by
      rw [Nat.add_div_left t (by omega), Nat.div_eq_of_lt (by omega)]
    have hcarry : m + 1 + t = m * 1 + (t + 1) := by omega
    rw [ht, hone, Nat.add_assoc, Nat.add_mod_left, Nat.mod_eq_of_lt (by omega), hcarry,
      norm_mul_add (by omega), norm_of_le (by omega)]

/-! ### Exchanging the halves of a word

A word consists of two digits to the base `b`. -/

/-- The two halves of a word are exchanged. -/
def swap (b w : ℕ) : ℕ := w % b * b + w / b

theorem base_pos (hb : b * b = m + 1) : 0 < b := by
  rcases Nat.eq_zero_or_pos b with h | h
  · rw [h] at hb
    omega
  · exact h

theorem swap_eq_zero_iff (hpos : 0 < b) : swap b w = 0 ↔ w = 0 := by
  have hdiv := Nat.div_add_mod w b
  unfold swap
  constructor
  · intro h
    have hlow : w % b = 0 := by
      rcases Nat.mul_eq_zero.mp (Nat.eq_zero_of_add_eq_zero_right h) with h | h
      · exact h
      · omega
    have hhigh : w / b = 0 := Nat.eq_zero_of_add_eq_zero_left h
    rw [hlow, hhigh] at hdiv
    omega
  · rintro rfl
    simp

theorem swap_le (hb : b * b = m + 1) (hw : w ≤ m) : swap b w ≤ m := by
  have hpos := base_pos hb
  have hhigh : w / b < b := Nat.div_lt_of_lt_mul (by omega)
  have hlow : w % b < b := Nat.mod_lt _ hpos
  have hbound : w % b * b ≤ (b - 1) * b := Nat.mul_le_mul_right b (by omega)
  have hall : (b - 1) * b + b = b * b := by rw [← Nat.succ_mul, Nat.succ_eq_add_one,
    Nat.sub_add_cancel hpos]
  unfold swap
  omega

/-- To exchange the halves is to multiply by the base. -/
theorem norm_swap (hb : b * b = m + 1) (w : ℕ) : norm m (swap b w) = norm m (b * w) := by
  have hmul : b * w = m * (w / b) + swap b w := by
    have hdiv := Nat.div_add_mod w b
    calc b * w = b * (b * (w / b) + w % b) := by rw [hdiv]
      _ = b * b * (w / b) + w % b * b := by rw [Nat.mul_add, Nat.mul_assoc, Nat.mul_comm (w % b)]
      _ = m * (w / b) + swap b w := by rw [hb, Nat.succ_mul, swap]; omega
  rw [hmul, norm_mul_add]
  intro hzero
  rw [(swap_eq_zero_iff (base_pos hb)).mp hzero, Nat.zero_div]

theorem norm_mul_norm (m k n : ℕ) : norm m (k * norm m n) = norm m (k * n) := by
  refine norm_congr ((norm_modEq m n).mul_left k) ?_
  rw [Nat.mul_eq_zero, Nat.mul_eq_zero, norm_eq_zero_iff]

theorem norm_total_map (hb : b * b = m + 1) (ws : List ℕ) :
    norm m (total (ws.map (swap b))) = norm m (b * total ws) := by
  induction ws with
  | nil => rfl
  | cons w ws ih =>
    rw [List.map_cons, total, total, Nat.mul_add, ← norm_norm_add, norm_swap hb, norm_norm_add,
      Nat.add_comm, ← norm_norm_add, ih, norm_norm_add, Nat.add_comm]

/-- **The sum of words with their halves exchanged.** -/
theorem norm_total_map_swap (hm : 0 < m) (hb : b * b = m + 1) (ws : List ℕ) :
    norm m (total (ws.map (swap b))) = swap b (norm m (total ws)) := by
  rw [norm_total_map hb, ← norm_mul_norm, ← norm_swap hb,
    norm_of_le (swap_le hb (norm_le hm _))]

/-! ### The complement -/

/-- **A sum and its complement.** -/
theorem norm_add_compl (hm : 0 < m) (n : ℕ) : norm m (n + (m - norm m n)) = m := by
  have hle := norm_le hm n
  have hself := norm_le_self m n
  obtain ⟨k, hk⟩ := (Nat.modEq_iff_dvd' hself).mp (norm_modEq m n)
  have hsum : n + (m - norm m n) = m * k + m := by omega
  rw [hsum, norm_mul_add (by omega), norm_of_le (Nat.le_refl m)]

end OnesComplement
