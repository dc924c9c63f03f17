import Mathlib.Tactic.Common

/-!
# Loops around a system call

A loop tests whether it is done, makes a system call and looks at the result: it
returns, or goes on.  The results are a list; when it is used up the loop is waiting in
its call.

`run_ended` is the invariant rule for such a loop, with one case for each of the three
ways in which a run may end.  `run_returns` is the rule for termination: some results
make progress, the others do no harm, and there are enough of the former.

## Main definitions

* `Loop`, `Loop.run` — a loop and its runs.
* `Ended` — how a run has ended.

## Main results

* `run_ended` — the invariant rule.
* `run_returns` — the rule for termination.
-/

namespace CallLoop

variable {S R A : Type*}

/-- A loop with state `S` around a call with results `R`, returning an `A`. -/
structure Loop (S R A : Type*) where
  /-- The test in front of the call. -/
  exit : S → Option A
  /-- What is done with the result: the loop returns, or goes on. -/
  body : S → R → Option A × S

/-- The end of a run. -/
structure Out (S A : Type*) where
  /-- What the loop has returned; `none` while it waits. -/
  ret : Option A
  state : S
  /-- The number of calls made. -/
  calls : ℕ
  deriving DecidableEq, Repr

/-- One more call in front. -/
def Out.succ (out : Out S A) : Out S A := { out with calls := out.calls + 1 }

/-- The loop, with these results. -/
def Loop.run (l : Loop S R A) : List R → S → Out S A
  | [], s => ⟨l.exit s, s, 0⟩
  | r :: rs, s =>
    match l.exit s with
    | some a => ⟨some a, s, 0⟩
    | none =>
      match l.body s r with
      | (some a, s') => ⟨some a, s', 1⟩
      | (none, s') => (l.run rs s').succ

variable {l : Loop S R A} {I : S → Prop}

theorem run_of_exit {rs : List R} {s : S} {a : A} (h : l.exit s = some a) :
    l.run rs s = ⟨some a, s, 0⟩ := by
  cases rs with
  | nil => simp only [Loop.run, h]
  | cons r rs => simp only [Loop.run, h]

theorem run_of_body_some {r : R} {rs : List R} {s s' : S} {a : A} (h : l.exit s = none)
    (hbody : l.body s r = (some a, s')) : l.run (r :: rs) s = ⟨some a, s', 1⟩ := by
  simp only [Loop.run, h, hbody]

theorem run_of_body_none {r : R} {rs : List R} {s s' : S} (h : l.exit s = none)
    (hbody : l.body s r = (none, s')) : l.run (r :: rs) s = (l.run rs s').succ := by
  simp only [Loop.run, h, hbody]

/-- A loop that is not done and has made no call is waiting. -/
theorem ret_of_calls_eq_zero {rs : List R} {s : S} (hgo : l.exit s = none)
    (hcalls : (l.run rs s).calls = 0) : (l.run rs s).ret = none := by
  cases rs with
  | nil => exact hgo
  | cons r rs =>
    obtain ⟨ret, s', hbody⟩ : ∃ ret s', l.body s r = (ret, s') := ⟨_, _, rfl⟩
    cases ret with
    | some a =>
      rw [run_of_body_some hgo hbody] at hcalls
      cases hcalls
    | none =>
      rw [run_of_body_none hgo hbody] at hcalls
      cases hcalls

/-- How a run with these results has ended, when `I` holds at every test. -/
inductive Ended (l : Loop S R A) (I : S → Prop) (rs : List R) : Out S A → Prop
  /-- At the test. -/
  | exit {s : S} {a : A} {k : ℕ} (hI : I s) (hexit : l.exit s = some a) :
    Ended l I rs ⟨some a, s, k⟩
  /-- After a call. -/
  | body {s s' : S} {a : A} {r : R} {k : ℕ} (hI : I s) (hgo : l.exit s = none)
    (hr : rs[k]? = some r) (hbody : l.body s r = (some a, s')) : Ended l I rs ⟨some a, s', k + 1⟩
  /-- It is waiting. -/
  | waiting {s : S} (hI : I s) (hgo : l.exit s = none) : Ended l I rs ⟨none, s, rs.length⟩

/-- One more call in front. -/
theorem Ended.cons {rs : List R} {out : Out S A} (h : Ended l I rs out) (r : R) :
    Ended l I (r :: rs) out.succ := by
  cases h with
  | exit hI hexit => exact .exit hI hexit
  | body hI hgo hr hbody => exact .body hI hgo (by rw [List.getElem?_cons_succ]; exact hr) hbody
  | waiting hI hgo => exact .waiting hI hgo

/-- **The invariant rule.** -/
theorem run_ended
    (hstep : ∀ s r s', I s → l.exit s = none → l.body s r = (none, s') → I s') :
    ∀ (rs : List R) (s : S), I s → Ended l I rs (l.run rs s) := by
  intro rs
  induction rs with
  | nil =>
    intro s hI
    cases hexit : l.exit s with
    | some a =>
      rw [run_of_exit hexit]
      exact .exit hI hexit
    | none =>
      simp only [Loop.run, hexit]
      exact .waiting hI hexit
  | cons r rs ih =>
    intro s hI
    cases hexit : l.exit s with
    | some a =>
      rw [run_of_exit hexit]
      exact .exit hI hexit
    | none =>
      obtain ⟨ret, s', hbody⟩ : ∃ ret s', l.body s r = (ret, s') := ⟨_, _, rfl⟩
      cases ret with
      | some a =>
        rw [run_of_body_some hexit hbody]
        exact .body hI hexit rfl hbody
      | none =>
        rw [run_of_body_none hexit hbody]
        exact (ih s' (hstep s r s' hI hexit hbody)).cons r

/-- **The rule for termination.**  The results that meet `p` decrease `μ`, the others do
not increase it, and the loop is done when it is zero. -/
theorem run_returns {μ : S → ℕ} {p : R → Bool}
    (hstep : ∀ s r s', I s → l.exit s = none → l.body s r = (none, s') → I s')
    (hzero : ∀ s, I s → μ s = 0 → l.exit s ≠ none)
    (hdown : ∀ s r s', I s → l.exit s = none → l.body s r = (none, s') →
      μ s' + (if p r then 1 else 0) ≤ μ s) :
    ∀ (rs : List R) (s : S), I s → μ s ≤ rs.countP p → (l.run rs s).ret ≠ none := by
  intro rs
  induction rs with
  | nil =>
    intro s hI hle
    exact hzero s hI (Nat.le_zero.mp hle)
  | cons r rs ih =>
    intro s hI hle
    cases hexit : l.exit s with
    | some a =>
      rw [run_of_exit hexit]
      exact Option.some_ne_none a
    | none =>
      obtain ⟨ret, s', hbody⟩ : ∃ ret s', l.body s r = (ret, s') := ⟨_, _, rfl⟩
      cases ret with
      | some a =>
        rw [run_of_body_some hexit hbody]
        exact Option.some_ne_none a
      | none =>
        rw [run_of_body_none hexit hbody]
        refine ih s' (hstep s r s' hI hexit hbody) ?_
        have hless := hdown s r s' hI hexit hbody
        rw [List.countP_cons] at hle
        omega

end CallLoop
