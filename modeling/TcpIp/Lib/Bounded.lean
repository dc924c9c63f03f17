import TcpIp.Lib.Run

/-!
# Bounded runs

A number that goes down with each step of some kind, and up by a known amount with the others,
bounds the number of the steps of that kind.

## Main results

* `countP_add_le_add_mul` — the bound.
* `countP_add_le` — the bound when the number never goes up.
-/

namespace Run

variable {S A : Type*} {step : S → A → Option S} {I : S → Prop} {P : S → A → Prop} {p q : A → Bool}
  {m : S → ℕ} {c : ℕ}

/-- **The steps that count are no more than the number at the start and what is added to it.** -/
theorem countP_add_le_add_mul (hI : ∀ s a s', I s → P s a → step s a = some s' → I s')
    (hm : ∀ s a s', I s → P s a → step s a = some s' →
      m s' + (if p a then 1 else 0) ≤ m s + (if q a then c else 0)) :
    ∀ (as : List A) (s s' : S), I s → Along step P s as → exec step s as = some s' →
      as.countP p + m s' ≤ m s + c * as.countP q := by
  intro as
  induction as with
  | nil =>
    intro s s' _ _ h
    obtain rfl := Option.some.inj h
    simp
  | cons a as ih =>
    intro s s' hs hP h
    obtain ⟨t, ht, htail⟩ := exec_cons_eq_some.mp h
    rw [along_cons ht] at hP
    have hrest := ih t s' (hI s a t hs hP.1 ht) hP.2 htail
    have hfirst := hm s a t hs hP.1 ht
    have hmul : c * (if q a then 1 else 0) = if q a then c else 0 := by split <;> simp
    rw [List.countP_cons, List.countP_cons, Nat.mul_add, hmul]
    omega

/-- The steps that count are no more than the number at the start. -/
theorem countP_add_le (hI : ∀ s a s', I s → P s a → step s a = some s' → I s')
    (hm : ∀ s a s', I s → P s a → step s a = some s' → m s' + (if p a then 1 else 0) ≤ m s)
    (as : List A) (s s' : S) (hs : I s) (hP : Along step P s as) (h : exec step s as = some s') :
    as.countP p + m s' ≤ m s := by
  have hcount := countP_add_le_add_mul (q := fun _ => false) (c := 0) hI hm as s s' hs hP h
  rwa [Nat.zero_mul, Nat.add_zero] at hcount

end Run
