import Mathlib.Data.List.Basic
import Mathlib.Tactic.Common

/-!
# The longest run

The positions from 0 to `n` are gone through once to find the longest run of positions that meet a
condition.  The run that ends at the present position is kept, and the best one of those that have
ended.

## Main definitions

* `IsRun q n r` — all the positions of `r` meet the condition.
* `longest q n` — the run that is found.
* `Beats b r` — the run `b` is longer than `r`, or as long and not behind it.

## Main results

* `isRun_of_longest`, `beats_of_longest` — the run that is found is the first one of the longest.
* `not_isRun_of_longest` — if none is found there is none.
-/

namespace LongestRun

/-- The positions from `base` on. -/
structure Run where
  base : ℕ
  len : ℕ
  deriving DecidableEq, Repr

/-- All the positions meet the condition. -/
structure IsRun (q : ℕ → Bool) (n : ℕ) (r : Run) : Prop where
  pos : 0 < r.len
  le : r.base + r.len ≤ n
  all : ∀ i, r.base ≤ i → i < r.base + r.len → q i = true

/-- The run `b` is longer than `r`, or as long and not behind it. -/
def Beats (b r : Run) : Prop := r.len < b.len ∨ r.len = b.len ∧ b.base ≤ r.base

/-! ### The search -/

/-- The better one of two runs, the first of which is in front of the second. -/
def better (best : Option Run) (cur : Run) : Option Run :=
  match best with
  | none => some cur
  | some b => if b.len < cur.len then some cur else some b

/-- The best run that has ended, and the one that ends here. -/
structure Search where
  best : Option Run
  cur : Option Run
  deriving DecidableEq, Repr

/-- One position. -/
def step (q : ℕ → Bool) (s : Search) (i : ℕ) : Search :=
  match q i, s.cur with
  | true, none => { s with cur := some ⟨i, 1⟩ }
  | true, some c => { s with cur := some { c with len := c.len + 1 } }
  | false, some c => ⟨better s.best c, none⟩
  | false, none => s

/-- The run that is still going on ends with the positions. -/
def close (s : Search) : Option Run :=
  match s.cur with
  | some c => better s.best c
  | none => s.best

/-- The longest run. -/
def longest (q : ℕ → Bool) (n : ℕ) : Option Run :=
  close ((List.range n).foldl (step q) ⟨none, none⟩)

/-! ### What is found -/

section Found

variable {q : ℕ → Bool} {n : ℕ} {s : Search} {b c r : Run} {best : Option Run}

theorem Beats.trans (h : Beats b c) (h' : Beats c r) : Beats b r := by
  unfold Beats at *
  omega

/-- A part of a run. -/
theorem beats_of_part (hbase : c.base ≤ r.base) (hend : r.base + r.len ≤ c.base + c.len) :
    Beats c r := by
  unfold Beats
  omega

theorem better_eq (best : Option Run) (c : Run) :
    better best c = some c ∨ ∃ b, best = some b ∧ better best c = some b := by
  cases best with
  | none => exact .inl rfl
  | some b =>
    rw [better]
    split
    · exact .inl rfl
    · exact .inr ⟨b, rfl, rfl⟩

/-- The better one beats both. -/
theorem beats_of_better (horder : ∀ b, best = some b → b.base ≤ c.base) :
    ∃ d, better best c = some d ∧ Beats d c ∧ ∀ b, best = some b → Beats d b := by
  cases best with
  | none => exact ⟨c, rfl, .inr ⟨rfl, Nat.le_refl _⟩, fun b hb => (by cases hb)⟩
  | some b =>
    have hbase := horder b rfl
    rw [better]
    split
    · next hlt =>
      refine ⟨c, rfl, .inr ⟨rfl, Nat.le_refl _⟩, ?_⟩
      rintro _ ⟨⟩
      exact .inl hlt
    · next hle =>
      refine ⟨b, rfl, ?_, ?_⟩
      · unfold Beats
        omega
      · rintro _ ⟨⟩
        exact .inr ⟨rfl, Nat.le_refl _⟩

theorem IsRun.mono (h : IsRun q n r) : IsRun q (n + 1) r :=
  { h with le := Nat.le_succ_of_le h.le }

/-- What has been found in the first `n` positions: the run that ends here has been kept from its
start, and each run is beaten by the best one or is a part of the one that ends here. -/
structure Found (q : ℕ → Bool) (n : ℕ) (s : Search) : Prop where
  best_run : ∀ b, s.best = some b → IsRun q n b
  cur_run : ∀ c, s.cur = some c → IsRun q n c
  cur_end : ∀ c, s.cur = some c → c.base + c.len = n
  cur_start : ∀ c i, s.cur = some c → c.base = i + 1 → q i = false
  none_end : ∀ i, s.cur = none → n = i + 1 → q i = false
  order : ∀ b c, s.best = some b → s.cur = some c → b.base ≤ c.base
  beaten : ∀ r, IsRun q n r → (∃ c, s.cur = some c ∧ c.base ≤ r.base) ∨
    ∃ b, s.best = some b ∧ Beats b r

theorem found_start : Found q 0 ⟨none, none⟩ where
  best_run _ h := by cases h
  cur_run _ h := by cases h
  cur_end _ h := by cases h
  cur_start _ _ h := by cases h
  none_end _ _ h := by cases h
  order _ _ h := by cases h
  beaten r h := by
    have hpos := h.pos
    have hle := h.le
    omega

/-- The better one of the two runs that are kept is a run. -/
theorem Found.better_run (h : Found q n s) (hc : s.cur = some c) (hb : better s.best c = some b) :
    IsRun q n b := by
  rcases better_eq s.best c with heq | ⟨b', hbest, heq⟩
  · rw [heq] at hb
    exact Option.some.inj hb ▸ h.cur_run c hc
  · rw [heq] at hb
    exact Option.some.inj hb ▸ h.best_run b' hbest

/-- A run that ends at the next position, or before it. -/
theorem IsRun.succ_cases (h : IsRun q (n + 1) r) :
    IsRun q n r ∨ r.base + r.len = n + 1 ∧ q n = true := by
  have hle := h.le
  have hpos := h.pos
  rcases Nat.lt_or_ge (r.base + r.len) (n + 1) with hlt | hge
  · exact .inl { h with le := Nat.le_of_lt_succ hlt }
  · exact .inr ⟨by omega, h.all n (by omega) (by omega)⟩

theorem Found.step (h : Found q n s) : Found q (n + 1) (step q s n) := by
  obtain ⟨best, cur⟩ := s
  cases hq : q n with
  | true =>
    cases cur with
    | none =>
      -- a run starts
      have hnew : LongestRun.step q ⟨best, none⟩ n = ⟨best, some ⟨n, 1⟩⟩ := by
        simp [LongestRun.step, hq]
      rw [hnew]
      refine ⟨fun b hb => (h.best_run b hb).mono, ?_, ?_, ?_, fun _ hc => (by cases hc), ?_, ?_⟩
      · rintro _ ⟨⟩
        refine ⟨Nat.one_pos, Nat.le_refl _, fun i hle hlt => ?_⟩
        obtain rfl : i = n := by simp only at hle hlt; omega
        exact hq
      · rintro _ ⟨⟩
        rfl
      · rintro _ i ⟨⟩ hi
        exact h.none_end i rfl hi
      · rintro b _ hb ⟨⟩
        have := (h.best_run b hb).le
        simp only
        omega
      · intro r hr
        rcases hr.succ_cases with hr' | ⟨hend, -⟩
        · rcases h.beaten r hr' with ⟨c, hc, -⟩ | hbest
          · cases hc
          · exact .inr hbest
        · refine .inl ⟨_, rfl, ?_⟩
          by_contra hlt
          have hpos := hr.pos
          simp only at hlt
          obtain ⟨i, rfl⟩ : ∃ i, n = i + 1 := ⟨n - 1, by omega⟩
          have hfalse := h.none_end i rfl rfl
          rw [hr.all i (by omega) (by omega)] at hfalse
          cases hfalse
    | some c =>
      -- the run goes on
      have hnew : LongestRun.step q ⟨best, some c⟩ n = ⟨best, some ⟨c.base, c.len + 1⟩⟩ := by
        simp [LongestRun.step, hq]
      have hcend := h.cur_end c rfl
      have hcrun := h.cur_run c rfl
      rw [hnew]
      refine ⟨fun b hb => (h.best_run b hb).mono, ?_, ?_, ?_, fun _ hc => (by cases hc), ?_, ?_⟩
      · rintro _ ⟨⟩
        refine ⟨Nat.succ_pos _, by simp only; omega, fun i hle hlt => ?_⟩
        rcases Nat.lt_or_ge i n with hi | hi
        · exact hcrun.all i hle (by omega)
        · obtain rfl : i = n := by simp only at hlt; omega
          exact hq
      · rintro _ ⟨⟩
        simp only
        omega
      · rintro _ i ⟨⟩ hi
        exact h.cur_start c i rfl hi
      · rintro b _ hb ⟨⟩
        exact h.order b c hb rfl
      · intro r hr
        rcases hr.succ_cases with hr' | ⟨hend, -⟩
        · rcases h.beaten r hr' with ⟨c', hc', hle⟩ | hbest
          · cases hc'
            exact .inl ⟨_, rfl, hle⟩
          · exact .inr hbest
        · refine .inl ⟨_, rfl, ?_⟩
          by_contra hlt
          have hpos := hcrun.pos
          simp only at hlt
          obtain ⟨i, hi⟩ : ∃ i, c.base = i + 1 := ⟨c.base - 1, by omega⟩
          have hfalse := h.cur_start c i rfl hi
          rw [hr.all i (by omega) (by omega)] at hfalse
          cases hfalse
  | false =>
    have hended : ∀ r, IsRun q (n + 1) r → IsRun q n r := by
      intro r hr
      rcases hr.succ_cases with hr' | ⟨-, htrue⟩
      · exact hr'
      · rw [hq] at htrue
        cases htrue
    cases cur with
    | none =>
      have hnew : LongestRun.step q ⟨best, none⟩ n = ⟨best, none⟩ := by
        simp [LongestRun.step, hq]
      rw [hnew]
      refine ⟨fun b hb => (h.best_run b hb).mono, fun _ hc => (by cases hc),
        fun _ hc => (by cases hc), fun _ _ hc => (by cases hc), ?_, fun _ _ _ hc => (by cases hc),
        fun r hr => h.beaten r (hended r hr)⟩
      rintro i - hi
      cases hi
      exact hq
    | some c =>
      -- the run ends here, and is compared with the best one
      have hnew : LongestRun.step q ⟨best, some c⟩ n = ⟨better best c, none⟩ := by
        simp [LongestRun.step, hq]
      obtain ⟨d, hd, hdc, hdb⟩ := beats_of_better fun b hb => h.order b c hb rfl
      rw [hnew]
      refine ⟨?_, fun _ hc => (by cases hc), fun _ hc => (by cases hc),
        fun _ _ hc => (by cases hc), ?_, fun _ _ _ hc => (by cases hc), ?_⟩
      · exact fun b hb => (h.better_run rfl hb).mono
      · rintro i - hi
        cases hi
        exact hq
      · intro r hr
        refine .inr ⟨d, hd, ?_⟩
        rcases h.beaten r (hended r hr) with ⟨c', hc', hle⟩ | ⟨b, hb, hbeats⟩
        · cases hc'
          have hcend := h.cur_end c rfl
          have hrle := (hended r hr).le
          exact hdc.trans (beats_of_part hle (by omega))
        · exact (hdb b hb).trans hbeats

theorem found_range (q : ℕ → Bool) :
    ∀ n, Found q n ((List.range n).foldl (LongestRun.step q) ⟨none, none⟩) := by
  intro n
  induction n with
  | zero => exact found_start
  | succ n ih =>
    rw [List.range_succ, List.foldl_append, List.foldl_cons, List.foldl_nil]
    exact ih.step

/-- What the search ends with. -/
theorem Found.close (h : Found q n s) :
    (∀ b, close s = some b → IsRun q n b) ∧
      ∀ r, IsRun q n r → ∃ b, close s = some b ∧ Beats b r := by
  obtain ⟨best, cur⟩ := s
  cases cur with
  | none =>
    refine ⟨fun b hb => h.best_run b hb, fun r hr => ?_⟩
    rcases h.beaten r hr with ⟨c, hc, -⟩ | hbest
    · cases hc
    · exact hbest
  | some c =>
    obtain ⟨d, hd, hdc, hdb⟩ := beats_of_better fun b hb => h.order b c hb rfl
    refine ⟨fun b hb => h.better_run rfl hb, fun r hr => ⟨d, hd, ?_⟩⟩
    rcases h.beaten r hr with ⟨c', hc', hle⟩ | ⟨b, hb, hbeats⟩
    · cases hc'
      have hcend := h.cur_end c rfl
      have hrle := hr.le
      exact hdc.trans (beats_of_part hle (by omega))
    · exact (hdb b hb).trans hbeats

/-- **A run is found.** -/
theorem isRun_of_longest (h : longest q n = some b) : IsRun q n b :=
  (found_range q n).close.1 b h

/-- **It is the first one of the longest.** -/
theorem beats_of_longest (h : longest q n = some b) (hr : IsRun q n r) : Beats b r := by
  obtain ⟨b', hb', hbeats⟩ := (found_range q n).close.2 r hr
  rw [show longest q n = some b' from hb'] at h
  cases h
  exact hbeats

/-- **If none is found there is none.** -/
theorem not_isRun_of_longest (h : longest q n = none) : ¬ IsRun q n r := by
  intro hr
  obtain ⟨b, hb, -⟩ := (found_range q n).close.2 r hr
  rw [show longest q n = some b from hb] at h
  cases h

end Found

end LongestRun
