import Mathlib.Logic.Function.Basic
import Mathlib.Tactic.Common

/-!
# Mutual exclusion

A mutex is described by who holds it.  A program that locks and unlocks it in the
right places keeps one relation between the mutex and the threads: the holder is
exactly the thread that is inside a critical section.  `Guards` is this relation, and
there is one lemma for each kind of step.

## Main definitions

* `Guards mutex inside` — the mutex is held by the one that is inside.
* `Thread`, `insideOf` — a main thread and any number of others.

## Main results

* `Guards.lock`, `Guards.unlock` — the steps of a program.
* `Guards.unique` — no two threads are inside.
-/

namespace Mutex

variable {ι : Type*} {mutex : Option ι} {inside : ι → Bool} {i j : ι}

/-- The mutex is held by the one that is inside a critical section, if any is. -/
def Guards (mutex : Option ι) (inside : ι → Bool) : Prop :=
  ∀ i, mutex = some i ↔ inside i = true

/-- **No two are inside.** -/
theorem Guards.unique (h : Guards mutex inside) (hi : inside i = true) (hj : inside j = true) :
    i = j := by
  have hmi := (h i).mpr hi
  have hmj := (h j).mpr hj
  rw [hmi] at hmj
  exact Option.some.inj hmj

/-- When the mutex is free nobody is inside. -/
theorem Guards.outside (h : Guards none inside) (i : ι) : inside i = false := by
  cases hi : inside i with
  | false => rfl
  | true => exact absurd ((h i).mpr hi) (Option.some_ne_none i).symm

variable [DecidableEq ι]

/-- A free mutex is locked by the one that goes inside. -/
theorem Guards.lock (h : Guards none inside) (i : ι) :
    Guards (some i) (Function.update inside i true) := by
  intro j
  rcases eq_or_ne j i with rfl | hne
  · rw [Function.update_self]
    exact iff_of_true rfl rfl
  · rw [Function.update_of_ne hne, h.outside j]
    exact iff_of_false (fun heq => hne (Option.some.inj heq).symm) Bool.false_ne_true

/-- The one inside leaves and unlocks the mutex. -/
theorem Guards.unlock (h : Guards mutex inside) (hi : inside i = true) :
    Guards none (Function.update inside i false) := by
  intro j
  rcases eq_or_ne j i with rfl | hne
  · rw [Function.update_self]
    exact iff_of_false (Option.some_ne_none j).symm Bool.false_ne_true
  · rw [Function.update_of_ne hne]
    exact iff_of_false (Option.some_ne_none j).symm fun hj => hne (h.unique hj hi)

/-! ### A main thread and others -/

/-- The threads of a process: the main thread and those it has created. -/
inductive Thread where
  | main
  | worker (i : ℕ)
  deriving DecidableEq, Repr

/-- Who is inside, from what is known of the main thread and of the others. -/
def insideOf (main : Bool) (workers : ℕ → Bool) : Thread → Bool
  | .main => main
  | .worker i => workers i

section

variable {mutex : Option Thread} {a b : Bool} {w : ℕ → Bool} {i : ℕ}

theorem insideOf_main (a b : Bool) (w : ℕ → Bool) :
    insideOf b w = Function.update (insideOf a w) .main b := by
  funext t
  cases t with
  | main => rw [Function.update_self]; rfl
  | worker j => rw [Function.update_of_ne (by nofun)]; rfl

theorem insideOf_worker (a b : Bool) (w : ℕ → Bool) (i : ℕ) :
    insideOf a (Function.update w i b) = Function.update (insideOf a w) (.worker i) b := by
  funext t
  cases t with
  | main => rw [Function.update_of_ne (by nofun)]; rfl
  | worker j =>
    rcases eq_or_ne j i with rfl | hne
    · simp [insideOf]
    · rw [Function.update_of_ne fun heq => hne (Thread.worker.inj heq)]
      simp [insideOf, Function.update_of_ne hne]

theorem Guards.lockMain (h : Guards none (insideOf a w)) :
    Guards (some .main) (insideOf true w) := by
  rw [insideOf_main a]
  exact h.lock .main

theorem Guards.unlockMain (h : Guards mutex (insideOf true w)) :
    Guards none (insideOf false w) := by
  rw [insideOf_main true]
  exact h.unlock rfl

theorem Guards.lockWorker (h : Guards none (insideOf a w)) (i : ℕ) :
    Guards (some (.worker i)) (insideOf a (Function.update w i true)) := by
  rw [insideOf_worker]
  exact h.lock (.worker i)

theorem Guards.unlockWorker (h : Guards mutex (insideOf a w)) (hi : w i = true) :
    Guards none (insideOf a (Function.update w i false)) := by
  rw [insideOf_worker]
  exact h.unlock hi

theorem Guards.stayWorker (h : Guards mutex (insideOf a w)) (hi : w i = b) :
    Guards mutex (insideOf a (Function.update w i b)) := by
  rw [← hi, Function.update_eq_self]
  exact h

/-- While the main thread is inside no other thread is. -/
theorem Guards.worker_outside (h : Guards mutex (insideOf true w)) (i : ℕ) : w i = false := by
  cases hi : w i with
  | false => rfl
  | true =>
    have hmain : insideOf true w .main = true := rfl
    have hworker : insideOf true w (.worker i) = true := hi
    exact absurd (h.unique hmain hworker) (by nofun)

/-- While another thread is inside the main thread is not. -/
theorem Guards.main_outside (h : Guards mutex (insideOf a w)) (hi : w i = true) : a = false := by
  cases a with
  | false => rfl
  | true => exact absurd (h.worker_outside i) (by rw [hi]; nofun)

/-- No two other threads are inside. -/
theorem Guards.worker_unique (h : Guards mutex (insideOf a w)) {j : ℕ} (hi : w i = true)
    (hj : w j = true) : i = j := by
  have hi' : insideOf a w (.worker i) = true := hi
  have hj' : insideOf a w (.worker j) = true := hj
  exact Thread.worker.inj (h.unique hi' hj')

end

end Mutex
