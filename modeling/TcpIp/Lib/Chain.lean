import Mathlib.Data.List.Nodup
import Mathlib.Tactic.Common

/-!
# Linked cells

Cells of a memory that are linked by a `next` field, and the lists of cells that are
met on the way from one of them to another.

## Main definitions

* `Seg next p cs q` — following `next` from `p` meets the cells `cs` and gets to `q`.

## Main results

* `seg_append` — a way through two lists of cells is two ways.
* `Seg.congr` — only the links of the cells on the way matter.
* `Seg.nodup` — a way that ends meets no cell twice.
-/

namespace Chain

variable {ι : Type*} {next next' : ι → Option ι} {p q : Option ι} {cs ds : List ι}

/-- Following `next` from `p` meets the cells `cs`, one after the other, and gets to `q`. -/
def Seg (next : ι → Option ι) : Option ι → List ι → Option ι → Prop
  | p, [], q => p = q
  | p, c :: cs, q => p = some c ∧ Seg next (next c) cs q

@[simp] theorem seg_nil : Seg next p [] q ↔ p = q := Iff.rfl

@[simp] theorem seg_cons {c : ι} :
    Seg next p (c :: cs) q ↔ p = some c ∧ Seg next (next c) cs q := Iff.rfl

/-- **A way through two lists of cells is two ways.** -/
theorem seg_append : ∀ (cs : List ι) {p : Option ι},
    Seg next p (cs ++ ds) q ↔ ∃ r, Seg next p cs r ∧ Seg next r ds q := by
  intro cs
  induction cs with
  | nil => intro p; simp
  | cons c cs ih =>
    intro p
    simp only [List.cons_append, seg_cons, ih]
    constructor
    · rintro ⟨hp, r, hcs, hds⟩
      exact ⟨r, ⟨hp, hcs⟩, hds⟩
    · rintro ⟨r, ⟨hp, hcs⟩, hds⟩
      exact ⟨hp, r, hcs, hds⟩

/-- **Only the links of the cells on the way matter.** -/
theorem Seg.congr : ∀ (cs : List ι) {p : Option ι}, Seg next p cs q →
    (∀ c ∈ cs, next' c = next c) → Seg next' p cs q := by
  intro cs
  induction cs with
  | nil => intro p h _; exact h
  | cons c cs ih =>
    rintro p ⟨hp, hcs⟩ heq
    refine ⟨hp, ?_⟩
    rw [heq c List.mem_cons_self]
    exact ih hcs fun d hd => heq d (List.mem_cons_of_mem c hd)

/-- Two ways from one cell to the end meet the same cells. -/
theorem Seg.unique : ∀ (cs ds : List ι) {p : Option ι}, Seg next p cs none → Seg next p ds none →
    cs = ds := by
  intro cs
  induction cs with
  | nil =>
    rintro ds p rfl hds
    cases ds with
    | nil => rfl
    | cons d ds => cases hds.1
  | cons c cs ih =>
    rintro ds p ⟨rfl, hcs⟩ hds
    cases ds with
    | nil => cases hds
    | cons d ds =>
      obtain ⟨hd, hds⟩ := hds
      cases hd
      rw [ih ds hcs hds]

/-- **A way that ends meets no cell twice**: from the second meeting on it would go round
for ever. -/
theorem Seg.nodup : ∀ (cs : List ι) {p : Option ι}, Seg next p cs none → cs.Nodup := by
  intro cs
  induction cs with
  | nil => intro p _; exact List.nodup_nil
  | cons c cs ih =>
    rintro p ⟨rfl, hcs⟩
    refine List.nodup_cons.mpr ⟨fun hmem => ?_, ih hcs⟩
    obtain ⟨as, bs, rfl⟩ := List.append_of_mem hmem
    obtain ⟨r, -, hr⟩ := (seg_append as).mp hcs
    obtain ⟨rfl, hbs⟩ := hr
    have heq := Seg.unique _ _ hcs hbs
    have hlen := congrArg List.length heq
    simp only [List.length_append, List.length_cons] at hlen
    omega

end Chain
