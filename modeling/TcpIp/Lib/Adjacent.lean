import Mathlib.Data.List.Destutter
import Mathlib.Tactic.Common

/-!
# Lists that are gone through with the last item in mind

A program that goes through a list and remembers the last item only takes an item for a new one if
it is not the one that came before.  That is right if equal items stand next to each other.

## Main definitions

* `Grouped` — equal items stand next to each other.
* `repeats` — which items are the same as the one before.
* `again` — which items have come before.

## Main results

* `nodup_destutter'_iff` — the items that are not the same as the one before are all different
  exactly if equal items stand next to each other.
* `repeats_eq_again_iff` — the items that are the same as the one before are those that have come
  before, exactly if equal items stand next to each other.
-/

namespace Adjacent

variable {α : Type*} {a x : α} {l before : List α}

/-- Equal items stand next to each other: between two of them there is no other item. -/
def Grouped (l : List α) : Prop := ∀ x y, [x, y, x].Sublist l → y = x

theorem grouped_of_length_lt (h : l.length < 3) : Grouped l := by
  intro x y hsub
  have hlen : 3 ≤ l.length := hsub.length_le
  omega

theorem Grouped.of_cons (h : Grouped (a :: l)) : Grouped l :=
  fun x y hsub => h x y (hsub.cons a)

theorem grouped_cons_cons : Grouped (a :: x :: l) ↔ Grouped (x :: l) ∧ (a ∈ l → x = a) := by
  constructor
  · intro h
    refine ⟨h.of_cons, fun hmem => h a x ?_⟩
    exact ((List.singleton_sublist.mpr hmem).cons_cons x).cons_cons a
  · rintro ⟨hgrouped, hfirst⟩ z y hsub
    cases hsub with
    | cons _ hsub => exact hgrouped z y hsub
    | cons_cons _ hsub =>
      -- the item in front, then `y`, and then the item in front once more
      cases hsub with
      | cons_cons _ hsub => exact hfirst (List.singleton_sublist.mp hsub)
      | cons _ hsub =>
        have hmem : a ∈ l := hsub.subset (by simp)
        rw [hfirst hmem] at hgrouped
        exact hgrouped a y (hsub.cons_cons a)

variable [DecidableEq α]

/-! ### Items that are not the same as the one before -/

/-- The item in front is kept. -/
theorem cons_tail_destutter' : ∀ (l : List α) (a : α),
    a :: (l.destutter' (· ≠ ·) a).tail = l.destutter' (· ≠ ·) a := by
  intro l
  induction l with
  | nil => intro a; rfl
  | cons b l ih =>
    intro a
    by_cases hab : a = b
    · rw [List.destutter'_cons_neg _ (not_not.mpr hab), ih]
    · rw [List.destutter'_cons_pos _ hab, List.tail_cons]

theorem mem_destutter'_iff : ∀ (l : List α) (a : α),
    x ∈ l.destutter' (· ≠ ·) a ↔ x ∈ a :: l := by
  intro l
  induction l with
  | nil => intro a; rfl
  | cons b l ih =>
    intro a
    by_cases hab : a = b
    · rw [List.destutter'_cons_neg _ (not_not.mpr hab), ih, hab]
      simp
    · rw [List.destutter'_cons_pos _ hab, List.mem_cons, ih, ← List.mem_cons]

/-- **The items that are not the same as the one before** are all different exactly if equal items
stand next to each other. -/
theorem nodup_destutter'_iff : ∀ (l : List α) (a : α),
    (l.destutter' (· ≠ ·) a).Nodup ↔ Grouped (a :: l) := by
  intro l
  induction l with
  | nil =>
    intro a
    exact iff_of_true (List.nodup_singleton a) (grouped_of_length_lt (by simp))
  | cons b l ih =>
    intro a
    rw [grouped_cons_cons]
    by_cases hab : a = b
    · subst hab
      rw [List.destutter'_cons_neg _ (not_not.mpr rfl), ih]
      simp
    · rw [List.destutter'_cons_pos _ hab, List.nodup_cons, ih, mem_destutter'_iff, List.mem_cons,
        and_comm]
      have hba : ¬ b = a := fun h => hab h.symm
      simp [hab, hba]

/-! ### Items that are the same as the one before -/

/-- Which items are the same as the one before, which is `a` for the first one. -/
def repeats : α → List α → List Bool
  | _, [] => []
  | a, x :: l => decide (x = a) :: repeats x l

/-- Which items have come before: among those in `before`, or earlier in the list. -/
def again : List α → List α → List Bool
  | _, [] => []
  | before, x :: l => decide (x ∈ before) :: again (x :: before) l

theorem repeats_eq_again_iff_of_mem : ∀ (l : List α) (a : α) (before : List α), a ∈ before →
    (repeats a l = again before l ↔ Grouped (a :: l) ∧ ∀ x ∈ l, x ∈ before → x = a) := by
  intro l
  induction l with
  | nil =>
    intro a before _
    exact iff_of_true rfl ⟨grouped_of_length_lt (by simp), by simp⟩
  | cons x l ih =>
    intro a before ha
    rw [repeats, again, List.cons.injEq, decide_eq_decide, ih x (x :: before) List.mem_cons_self,
      grouped_cons_cons, List.forall_mem_cons]
    constructor
    · rintro ⟨hx, hgrouped, hrest⟩
      have hback : ∀ y ∈ l, y ∈ before → y = x :=
        fun y hy hbefore => hrest y hy (List.mem_cons_of_mem x hbefore)
      refine ⟨⟨hgrouped, fun hal => (hback a hal ha).symm⟩, hx.mpr, fun y hy hbefore => ?_⟩
      obtain rfl := hback y hy hbefore
      exact hx.mpr hbefore
    · rintro ⟨⟨hgrouped, hal⟩, hx, hrest⟩
      refine ⟨⟨fun h => h ▸ ha, hx⟩, hgrouped, fun y hy hmem => ?_⟩
      rcases List.mem_cons.mp hmem with rfl | hbefore
      · rfl
      · obtain rfl := hrest y hy hbefore
        exact (hal hy).symm

/-- **The items that are the same as the one before** are those that have come before exactly if
equal items stand next to each other, and the first item is not taken for one that has come
before. -/
theorem repeats_eq_again_iff (a : α) (l : List α) :
    repeats a l = again [] l ↔ Grouped l ∧ l.head? ≠ some a := by
  cases l with
  | nil =>
    exact iff_of_true rfl ⟨grouped_of_length_lt (by simp), by simp⟩
  | cons x l =>
    rw [repeats, again, List.cons.injEq,
      repeats_eq_again_iff_of_mem l x [x] List.mem_cons_self]
    simp [and_comm]

end Adjacent
