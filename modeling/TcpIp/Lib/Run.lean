import Mathlib.Tactic.Common

/-!
# Runs of a guarded transition system

A system is given by its step function `step : S → A → Option S`: an action is
one atomic move of the program or of its environment, together with everything
the environment chose, and `none` means the action is not enabled.  A run is a
list of actions; `exec` performs it.

Two kinds of statement about runs are packaged here once.  A *state* property
that every step keeps holds at the end of every run (`exec_invariant`); a *step*
property `P s a` is read along a run by `Along`, and `exec_invariant_along` is
the invariant rule for the runs all of whose steps satisfy `P`.  The last rule,
`exec_iff_along`, is for properties that a single bad step destroys for good: the
property at the end of a run is then equivalent to all its steps being good.

## Main definitions

* `exec step s as` — the state after the run `as` from `s`.
* `Reachable step s₀ s` — some run leads from `s₀` to `s`.
* `Along step P s as` — every step of the run `as` from `s` satisfies `P`.
* `guarded step P` — the system in which only the steps that satisfy `P` are enabled.
* `blocks block n` — the run that consists of the first `n` blocks.
-/

namespace Run

variable {S A : Type*} {step : S → A → Option S}

/-- The state after performing the actions of a list in order; `none` when one
of them is not enabled. -/
def exec (step : S → A → Option S) : S → List A → Option S
  | s, [] => some s
  | s, a :: as => (step s a).bind fun s' => exec step s' as

/-- The states some run leads to. -/
def Reachable (step : S → A → Option S) (s₀ s : S) : Prop :=
  ∃ as, exec step s₀ as = some s

/-- Every step of the run `as` from `s` satisfies `P`, a property of the state
before the step and of the action. -/
def Along (step : S → A → Option S) (P : S → A → Prop) : S → List A → Prop
  | _, [] => True
  | s, a :: as => P s a ∧ ∀ s', step s a = some s' → Along step P s' as

@[simp] theorem exec_nil (s : S) : exec step s [] = some s := rfl

/-- A run that starts with `a` is a step followed by a run. -/
theorem exec_cons_eq_some {s s' : S} {a : A} {as : List A} :
    exec step s (a :: as) = some s' ↔
      ∃ t, step s a = some t ∧ exec step t as = some s' :=
  Option.bind_eq_some_iff

theorem along_cons {P : S → A → Prop} {s t : S} {a : A} {as : List A}
    (h : step s a = some t) :
    Along step P s (a :: as) ↔ P s a ∧ Along step P t as := by
  simp [Along, h]

instance Along.decidable {P : S → A → Prop} [∀ s a, Decidable (P s a)] :
    ∀ (s : S) (as : List A), Decidable (Along step P s as)
  | _, [] => isTrue trivial
  | s, a :: as =>
    match h : step s a with
    | none => decidable_of_iff (P s a) (by simp [Along, h])
    | some t =>
      have := Along.decidable (P := P) t as
      decidable_of_iff (P s a ∧ Along step P t as) (along_cons h).symm

/-- The steps after a first part of a run are steps of the whole run. -/
theorem Along.of_append {P : S → A → Prop} : ∀ (as : List A) {bs : List A} {s t : S},
    Along step P s (as ++ bs) → exec step s as = some t → Along step P t bs := by
  intro as
  induction as with
  | nil =>
    intro bs s t h ht
    simp only [exec_nil, Option.some.injEq] at ht
    exact ht ▸ h
  | cons a as ih =>
    intro bs s t h ht
    obtain ⟨u, hu, htail⟩ := exec_cons_eq_some.mp ht
    rw [List.cons_append, along_cons hu] at h
    exact ih h.2 htail

theorem exec_append : ∀ (as : List A) {bs : List A} {s t : S},
    exec step s as = some t → exec step s (as ++ bs) = exec step t bs := by
  intro as
  induction as with
  | nil =>
    intro bs s t h
    simp only [exec_nil, Option.some.injEq] at h
    rw [List.nil_append, h]
  | cons a as ih =>
    intro bs s t h
    obtain ⟨u, hu, htail⟩ := exec_cons_eq_some.mp h
    rw [List.cons_append, exec, hu, Option.bind_some, ih htail]

theorem exec_pair {s t u : S} {a b : A} (ha : step s a = some t) (hb : step t b = some u) :
    exec step s [a, b] = some u :=
  exec_cons_eq_some.mpr ⟨t, ha, exec_cons_eq_some.mpr ⟨u, hb, rfl⟩⟩

theorem Reachable.refl (s : S) : Reachable step s s := ⟨[], rfl⟩

/-- A run can be continued. -/
theorem Reachable.exec {s₀ s t : S} {as : List A} (h : Reachable step s₀ s)
    (hs : Run.exec step s as = some t) : Reachable step s₀ t := by
  obtain ⟨bs, hbs⟩ := h
  exact ⟨bs ++ as, (exec_append bs hbs).trans hs⟩

/-! ### Invariant rules -/

/-- **The invariant rule for the runs whose steps satisfy `P`.** -/
theorem exec_invariant_along {I : S → Prop} {P : S → A → Prop}
    (hstep : ∀ s a s', I s → P s a → step s a = some s' → I s') :
    ∀ (as : List A) (s s' : S), I s → Along step P s as → exec step s as = some s' → I s' := by
  intro as
  induction as with
  | nil =>
    intro s s' hI _ h
    simp only [exec_nil, Option.some.injEq] at h
    exact h ▸ hI
  | cons a as ih =>
    intro s s' hI hP h
    obtain ⟨t, ht, htail⟩ := exec_cons_eq_some.mp h
    rw [along_cons ht] at hP
    exact ih t s' (hstep s a t hI hP.1 ht) hP.2 htail

/-- A property of the actions alone. -/
theorem along_of_forall {P : S → A → Prop} : ∀ (as : List A) (s : S), (∀ a ∈ as, ∀ s, P s a) →
    Along step P s as := by
  intro as
  induction as with
  | nil => intro s _; trivial
  | cons a as ih =>
    intro s h
    refine ⟨h a List.mem_cons_self s, fun s' _ => ih s' ?_⟩
    exact fun b hb => h b (List.mem_cons_of_mem a hb)

/-- What follows from an invariant, in a state in which a step is made, holds along a run. -/
theorem along_of_invariant {I : S → Prop} {P Q : S → A → Prop}
    (hstep : ∀ s a s', I s → P s a → step s a = some s' → I s')
    (hQ : ∀ s a s', I s → P s a → step s a = some s' → Q s a) :
    ∀ (as : List A) (s s' : S), I s → Along step P s as → exec step s as = some s' →
      Along step Q s as := by
  intro as
  induction as with
  | nil => intro s s' _ _ _; trivial
  | cons a as ih =>
    intro s s' hI hP h
    obtain ⟨t, ht, htail⟩ := exec_cons_eq_some.mp h
    rw [along_cons ht] at hP ⊢
    exact ⟨hQ s a t hI hP.1 ht, ih t s' (hstep s a t hI hP.1 ht) hP.2 htail⟩

/-- **The invariant rule**: what holds initially and is kept by every step holds
in every reachable state. -/
theorem exec_invariant {I : S → Prop} (hstep : ∀ s a s', I s → step s a = some s' → I s')
    {s₀ s : S} (h₀ : I s₀) (h : Reachable step s₀ s) : I s := by
  obtain ⟨as, has⟩ := h
  exact exec_invariant_along (P := fun _ _ => True) (fun s a s' hI _ hs => hstep s a s' hI hs)
    as s₀ s h₀ (along_of_forall as s₀ fun _ _ _ => trivial) has

/-- Two step properties that agree in the states satisfying an invariant hold
along the same runs. -/
theorem along_congr {I : S → Prop} {P Q : S → A → Prop}
    (hI : ∀ s a s', I s → step s a = some s' → I s')
    (hPQ : ∀ s a s', I s → step s a = some s' → (P s a ↔ Q s a)) :
    ∀ (as : List A) (s s' : S), I s → exec step s as = some s' →
      (Along step P s as ↔ Along step Q s as) := by
  intro as
  induction as with
  | nil => intro s s' _ _; exact Iff.rfl
  | cons a as ih =>
    intro s s' hs h
    obtain ⟨t, ht, htail⟩ := exec_cons_eq_some.mp h
    rw [along_cons ht, along_cons ht, hPQ s a t hs ht, ih t s' (hI s a t hs ht) htail]

/-- **A property one bad step destroys for good.**  When `G` holds after a step
exactly if it held before and the step was good, `G` at the end of a run says
that it held at the start and that every step was good. -/
theorem exec_iff_along {I G : S → Prop} {P : S → A → Prop}
    (hI : ∀ s a s', I s → step s a = some s' → I s')
    (hG : ∀ s a s', I s → step s a = some s' → (G s' ↔ G s ∧ P s a)) :
    ∀ (as : List A) (s s' : S), I s → exec step s as = some s' →
      (G s' ↔ G s ∧ Along step P s as) := by
  intro as
  induction as with
  | nil =>
    intro s s' _ h
    simp only [exec_nil, Option.some.injEq] at h
    simp [Along, h]
  | cons a as ih =>
    intro s s' hs h
    obtain ⟨t, ht, htail⟩ := exec_cons_eq_some.mp h
    rw [along_cons ht, ih t s' (hI s a t hs ht) htail, hG s a t hs ht, and_assoc]

/-! ### Runs in blocks -/

/-- The first `n` blocks of actions one behind the other. -/
def blocks (block : ℕ → List A) : ℕ → List A
  | 0 => []
  | n + 1 => blocks block n ++ block n

/-- What each of the first `N` blocks adds to. -/
theorem exec_blocks {F : ℕ → S → Prop} {block : ℕ → List A} {N : ℕ} {s₀ : S} (h₀ : F 0 s₀)
    (hblock : ∀ n < N, ∀ s, F n s → ∃ t, exec step s (block n) = some t ∧ F (n + 1) t) :
    ∀ n ≤ N, ∃ s, exec step s₀ (blocks block n) = some s ∧ F n s := by
  intro n
  induction n with
  | zero => intro _; exact ⟨s₀, rfl, h₀⟩
  | succ n ih =>
    intro hn
    obtain ⟨s, hs, hF⟩ := ih (Nat.le_of_succ_le hn)
    obtain ⟨t, ht, hF'⟩ := hblock n hn s hF
    exact ⟨t, (exec_append _ hs).trans ht, hF'⟩

/-! ### Fewer steps -/

/-- The system in which only the steps that satisfy `P` are enabled. -/
def guarded (step : S → A → Option S) (P : S → A → Prop) [∀ s a, Decidable (P s a)] (s : S)
    (a : A) : Option S :=
  if P s a then step s a else none

theorem guarded_eq_some {P : S → A → Prop} [∀ s a, Decidable (P s a)] {s s' : S} {a : A} :
    guarded step P s a = some s' ↔ P s a ∧ step s a = some s' := by
  rw [guarded, Option.ite_none_right_eq_some]

end Run
