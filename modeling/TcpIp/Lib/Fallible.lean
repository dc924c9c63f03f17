import Mathlib.Tactic.Common

/-!
# Postconditions of fallible programs

A program of type `StateT σ (Except ε) α` returns a value or fails with an error.
`Post x P E` says, of every initial state, that the value meets `P` if there is
one and the error meets `E` otherwise.  The one judgement serves three purposes:
with `E` true it is partial correctness, with `P` true it bounds the errors, and
with `E` false it is total correctness (`Post.exists_ok`).

## Main results

* `post_bind`, `post_mapM`, `Post.mono` — the rules for sequences, for lists and for
  weakening.
-/

namespace Fallible

variable {σ ε α β : Type} {x : StateT σ (Except ε) α} {P Q : α → Prop} {E : ε → Prop}

/-- If `x` returns, the value meets `P`; if it fails, the error meets `E`. -/
def Post (x : StateT σ (Except ε) α) (P : α → Prop) (E : ε → Prop) : Prop :=
  ∀ s, match x s with
    | .ok r => P r.1
    | .error e => E e

theorem Post.ok (h : Post x P E) {s : σ} {r : α × σ} (hx : x s = .ok r) : P r.1 := by
  have hs := h s
  rw [hx] at hs
  exact hs

theorem Post.error (h : Post x P E) {s : σ} {e : ε} (hx : x s = .error e) : E e := by
  have hs := h s
  rw [hx] at hs
  exact hs

/-- Total correctness, when no error is possible. -/
theorem Post.exists_ok (h : Post x P fun _ => False) (s : σ) : ∃ r, x s = .ok r ∧ P r.1 := by
  cases hx : x s with
  | ok r => exact ⟨r, rfl, h.ok hx⟩
  | error e => exact (h.error hx).elim

theorem Post.mono (h : Post x P E) {E' : ε → Prop} (hP : ∀ a, P a → Q a) (hE : ∀ e, E e → E' e) :
    Post x Q E' := by
  intro s
  cases hx : x s with
  | ok r => exact hP _ (h.ok hx)
  | error e => exact hE _ (h.error hx)

theorem post_pure {a : α} (h : P a) : Post (pure a : StateT σ (Except ε) α) P E := fun _ => h

theorem post_throw {e : ε} (h : E e) : Post (throw e : StateT σ (Except ε) α) P E := fun _ => h

/-- **Sequences**: the second program may use what the first one ensures. -/
theorem post_bind {f : α → StateT σ (Except ε) β} {R : β → Prop} (hx : Post x Q E)
    (hf : ∀ a, Q a → Post (f a) R E) : Post (x >>= f) R E := by
  intro s
  have hbind : (x >>= f) s = (x s).bind fun r => f r.1 r.2 := rfl
  rw [hbind]
  cases hs : x s with
  | ok r => exact hf r.1 (hx.ok hs) r.2
  | error e => exact hx.error hs

/-- **Lists**: elements treated one after the other, each with a known result. -/
theorem post_mapM {f : α → StateT σ (Except ε) β} {g : α → β} : ∀ (l : List α),
    (∀ a ∈ l, Post (f a) (· = g a) E) → Post (l.mapM f) (· = l.map g) E := by
  intro l
  induction l with
  | nil => intro _; exact post_pure rfl
  | cons a l ih =>
    intro h
    rw [List.mapM_cons]
    refine post_bind (h a List.mem_cons_self) ?_
    rintro _ rfl
    refine post_bind (ih fun b hb => h b (List.mem_cons_of_mem _ hb)) ?_
    rintro _ rfl
    exact post_pure rfl

@[simp] theorem ok_bind (a : α) (f : α → Except ε β) : (Except.ok a >>= f) = f a := rfl

/-- A sequence of two programs without a state succeeds if both do. -/
theorem bind_eq_ok {x : Except ε α} {f : α → Except ε β} {b : β} :
    x >>= f = .ok b ↔ ∃ a, x = .ok a ∧ f a = .ok b := by
  cases x with
  | ok a => exact ⟨fun h => ⟨a, rfl, h⟩, fun ⟨_, ha, h⟩ => Except.ok.inj ha ▸ h⟩
  | error e => exact ⟨fun h => (nomatch h), fun ⟨_, ha, _⟩ => (nomatch ha)⟩

/-- What every step keeps is kept by a sequence of steps. -/
theorem foldlM_keeps {f : β → α → Except ε β} {P : β → Prop} :
    ∀ (as : List α) (b b' : β), (∀ a ∈ as, ∀ b b', P b → f b a = .ok b' → P b') → P b →
    as.foldlM f b = .ok b' → P b' := by
  intro as
  induction as with
  | nil =>
    intro b b' _ hb hfold
    cases hfold
    exact hb
  | cons a as ih =>
    intro b b' hstep hb hfold
    rw [List.foldlM_cons] at hfold
    obtain ⟨c, hc, hfold⟩ := bind_eq_ok.mp hfold
    exact ih c b' (fun a' ha' => hstep a' (List.mem_cons_of_mem a ha'))
      (hstep a List.mem_cons_self b c hb hc) hfold

end Fallible
