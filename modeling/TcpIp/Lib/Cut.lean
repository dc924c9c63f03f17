import Mathlib.Data.List.DropRight
import Mathlib.Tactic.Common

/-!
# Cutting a stream into pieces

A reader with a bounded buffer cuts a stream into pieces: it stops after the
first separator, after `k` elements or at the end of the stream, whichever comes
first, and goes on from there.  `cut` performs one such cut element by element
and says which of the three ended it; `cut_fst` gives the piece in closed form.
`cuts` is the sequence of pieces for a sequence of bounds.

The last section answers, for one constant bound, when the end of the stream cuts
a piece short: exactly when the length of what follows the last separator is not
a multiple of the bound.

## Main results

* `cut_fst` — the piece is `s.take (min k (s.findIdx stop + 1))`.
* `flatten_cuts_append` — the pieces and what is left of the stream make up the stream.
* `forall_not_ragged_iff` — when no piece is cut short by the end of the stream.
-/

namespace Cut

variable {α : Type*} {stop : α → Bool}

/-- What ended a piece. -/
inductive End where
  /-- A separator, the last element of the piece. -/
  | stop
  /-- The bound. -/
  | full
  /-- The end of the stream. -/
  | eof
  deriving DecidableEq, Repr

/-- The next piece of a stream, of `k` elements at most, and what ended it. -/
def cut (stop : α → Bool) : ℕ → List α → List α × End
  | 0, _ => ([], .full)
  | _ + 1, [] => ([], .eof)
  | k + 1, c :: t => if stop c then ([c], .stop) else (c :: (cut stop k t).1, (cut stop k t).2)

/-- The next pieces of a stream, one for each bound. -/
def cuts (stop : α → Bool) : List ℕ → List α → List (List α × End)
  | [], _ => []
  | k :: ks, s => cut stop k s :: cuts stop ks (s.drop (cut stop k s).1.length)

@[simp] theorem cut_zero (s : List α) : cut stop 0 s = ([], .full) := rfl

@[simp] theorem cut_succ_nil (k : ℕ) : cut stop (k + 1) [] = ([], .eof) := rfl

theorem cut_succ_cons (k : ℕ) (c : α) (t : List α) :
    cut stop (k + 1) (c :: t)
      = if stop c then ([c], .stop) else (c :: (cut stop k t).1, (cut stop k t).2) := rfl

@[simp] theorem cuts_nil (s : List α) : cuts stop [] s = [] := rfl

theorem cuts_cons (k : ℕ) (ks : List ℕ) (s : List α) :
    cuts stop (k :: ks) s = cut stop k s :: cuts stop ks (s.drop (cut stop k s).1.length) := rfl

/-! ### One piece -/

/-- **The piece in closed form**: up to and including the first separator, at
most `k` elements, and no more than there are. -/
theorem cut_fst : ∀ (k : ℕ) (s : List α),
    (cut stop k s).1 = s.take (min k (s.findIdx stop + 1)) := by
  intro k
  induction k with
  | zero => intro s; simp
  | succ k ih =>
    intro s
    cases s with
    | nil => simp
    | cons c t =>
      rw [cut_succ_cons, List.findIdx_cons]
      cases hc : stop c with
      | true => simp
      | false =>
        rw [if_neg (by simp), ih, cond_false, Nat.add_min_add_right, List.take_succ_cons]

theorem cut_append_drop (k : ℕ) (s : List α) :
    (cut stop k s).1 ++ s.drop (cut stop k s).1.length = s := by
  have hlen : s.take (cut stop k s).1.length = (cut stop k s).1 := by
    rw [cut_fst, List.length_take, ← List.take_eq_take_min]
  calc (cut stop k s).1 ++ s.drop (cut stop k s).1.length
      = s.take (cut stop k s).1.length ++ s.drop (cut stop k s).1.length := by rw [hlen]
    _ = s := List.take_append_drop _ _

theorem length_cut_le (k : ℕ) (s : List α) : (cut stop k s).1.length ≤ k := by
  rw [cut_fst, List.length_take]
  omega

/-- A piece ended by a separator has it as its last element. -/
theorem cut_stop : ∀ (k : ℕ) (s : List α), (cut stop k s).2 = .stop →
    ∃ q c, (cut stop k s).1 = q ++ [c] ∧ stop c = true := by
  intro k
  induction k with
  | zero => intro s h; simp at h
  | succ k ih =>
    intro s h
    cases s with
    | nil => simp at h
    | cons c t =>
      rw [cut_succ_cons] at h ⊢
      cases hc : stop c with
      | true => exact ⟨[], c, by simp, hc⟩
      | false =>
        rw [hc, if_neg (by simp)] at h
        obtain ⟨q, d, hq, hd⟩ := ih t h
        exact ⟨c :: q, d, by simp [hq], hd⟩

/-- A piece ended by its bound has `k` elements and no separator. -/
theorem cut_full : ∀ (k : ℕ) (s : List α), (cut stop k s).2 = .full →
    (cut stop k s).1.length = k ∧ ∀ x ∈ (cut stop k s).1, stop x = false := by
  intro k
  induction k with
  | zero => intro s _; simp
  | succ k ih =>
    intro s h
    cases s with
    | nil => simp at h
    | cons c t =>
      rw [cut_succ_cons] at h ⊢
      cases hc : stop c with
      | true => simp [hc] at h
      | false =>
        rw [hc, if_neg (by simp)] at h
        obtain ⟨hlen, hno⟩ := ih t h
        exact ⟨by simp [hlen], by simpa [hc] using hno⟩

/-- A piece ended by the end of the stream is the rest of the stream: less than
`k` elements and no separator. -/
theorem cut_eof : ∀ (k : ℕ) (s : List α), (cut stop k s).2 = .eof →
    (cut stop k s).1 = s ∧ s.length < k ∧ ∀ x ∈ s, stop x = false := by
  intro k
  induction k with
  | zero => intro s h; simp at h
  | succ k ih =>
    intro s h
    cases s with
    | nil => simp
    | cons c t =>
      rw [cut_succ_cons] at h ⊢
      cases hc : stop c with
      | true => simp [hc] at h
      | false =>
        rw [hc, if_neg (by simp)] at h
        obtain ⟨heq, hlen, hno⟩ := ih t h
        exact ⟨by simp [heq], by simpa using hlen, by simpa [hc] using hno⟩

/-- When the bound ends the piece. -/
theorem cut_full_iff : ∀ (k : ℕ) (s : List α),
    (cut stop k s).2 = .full ↔ k ≤ s.length ∧ ∀ x ∈ s.take k, stop x = false := by
  intro k
  induction k with
  | zero => intro s; simp
  | succ k ih =>
    intro s
    cases s with
    | nil => simp
    | cons c t =>
      rw [cut_succ_cons, List.take_succ_cons, List.forall_mem_cons]
      cases hc : stop c with
      | true => simp
      | false => simpa using ih t

/-- Unless the stream is exhausted, a piece with a positive bound has an element. -/
theorem cut_ne_nil {k : ℕ} (hk : 0 < k) {s : List α} (hs : s ≠ []) : (cut stop k s).1 ≠ [] := by
  rw [cut_fst]
  intro h
  rcases List.take_eq_nil_iff.mp h with h | h
  · omega
  · exact hs h

/-! ### The sequence of pieces -/

/-- What is left of a stream after its pieces have been taken. -/
def rest (stop : α → Bool) : List ℕ → List α → List α
  | [], s => s
  | k :: ks, s => rest stop ks (s.drop (cut stop k s).1.length)

/-- **The pieces and what is left of the stream make up the stream.** -/
theorem flatten_cuts_append : ∀ (ks : List ℕ) (s : List α),
    ((cuts stop ks s).map Prod.fst).flatten ++ rest stop ks s = s := by
  intro ks
  induction ks with
  | nil => intro s; rfl
  | cons k ks ih =>
    intro s
    rw [cuts_cons, rest, List.map_cons, List.flatten_cons, List.append_assoc, ih,
      cut_append_drop]

/-! ### Pieces cut short -/

/-- The end of the stream came in the middle of the piece. -/
def Ragged (r : List α × End) : Prop := r.2 = .eof ∧ r.1 ≠ []

/-- The elements after the last separator. -/
def tail (stop : α → Bool) (s : List α) : List α := s.rtakeWhile fun x => !stop x

theorem length_tail (s : List α) :
    (tail stop s).length = (s.reverse.takeWhile fun x => !stop x).length := by
  simp [tail, List.rtakeWhile]

/-- A separator shields what comes before it. -/
theorem length_tail_append_of_stop (q : List α) {c : α} (hc : stop c = true) (r : List α) :
    (tail stop (q ++ [c] ++ r)).length = (tail stop r).length := by
  rw [length_tail, length_tail, List.reverse_append, List.reverse_append, List.takeWhile_append]
  split
  · next h => simpa [hc] using h.symm
  · rfl

/-- Elements that are not separators count, unless a separator shields them. -/
theorem length_tail_append_of_none {p : List α} (hp : ∀ x ∈ p, stop x = false) (r : List α) :
    (tail stop (p ++ r)).length = (tail stop r).length ∨
      (tail stop (p ++ r)).length = (tail stop r).length + p.length := by
  rw [length_tail, length_tail, List.reverse_append, List.takeWhile_append]
  split
  · next h =>
    have hall : p.reverse.takeWhile (fun x => !stop x) = p.reverse := by
      rw [List.takeWhile_eq_self_iff]
      intro x hx
      simp [hp x (List.mem_reverse.mp hx)]
    refine .inr ?_
    rw [hall, List.length_append, h, p.length_reverse]
  · exact .inl rfl

theorem tail_of_none {s : List α} (hs : ∀ x ∈ s, stop x = false) :
    (tail stop s).length = s.length := by
  rw [length_tail, List.takeWhile_eq_self_iff.mpr, List.length_reverse]
  intro x hx
  simp [hs x (List.mem_reverse.mp hx)]

/-- A piece that is not cut short leaves the tail what it is modulo the bound. -/
theorem length_tail_mod {k : ℕ} {s : List α} (h : ¬ Ragged (cut stop k s)) :
    (tail stop s).length % k = (tail stop (s.drop (cut stop k s).1.length)).length % k := by
  have hs : (cut stop k s).1 ++ s.drop (cut stop k s).1.length = s := cut_append_drop k s
  cases hend : (cut stop k s).2 with
  | stop =>
    obtain ⟨q, c, hq, hc⟩ := cut_stop k s hend
    have hlen := length_tail_append_of_stop q hc (s.drop (cut stop k s).1.length)
    rw [← hq, hs] at hlen
    rw [hlen]
  | full =>
    obtain ⟨hlen, hno⟩ := cut_full k s hend
    have htail := length_tail_append_of_none hno (s.drop (cut stop k s).1.length)
    rw [hs] at htail
    rcases htail with htail | htail
    · rw [htail]
    · rw [htail, hlen, Nat.add_mod_right]
  | eof =>
    have hnil : (cut stop k s).1 = [] := by
      by_contra hne
      exact h ⟨hend, hne⟩
    rw [hnil, List.length_nil, List.drop_zero]

theorem cuts_replicate_nil {k : ℕ} (hk : 0 < k) : ∀ (m : ℕ),
    ∀ r ∈ cuts stop (List.replicate m k) ([] : List α), r = ([], .eof) := by
  obtain ⟨k, rfl⟩ := Nat.exists_eq_succ_of_ne_zero (Nat.pos_iff_ne_zero.mp hk)
  intro m
  induction m with
  | zero => intro r hr; simp at hr
  | succ m ih =>
    intro r hr
    rw [List.replicate_succ, cuts_cons, cut_succ_nil, List.mem_cons] at hr
    rcases hr with hr | hr
    · exact hr
    · exact ih r hr

/-- Some piece is cut short exactly when the length of the tail is not a multiple of
the bound.  The induction is on the length of the stream: a piece that is not cut
short takes something off it and leaves the tail what it is modulo the bound. -/
theorem exists_ragged_iff {k : ℕ} (hk : 0 < k) : ∀ (n : ℕ) (s : List α), s.length = n →
    ((∃ m, ∃ r ∈ cuts stop (List.replicate m k) s, Ragged r) ↔
      (tail stop s).length % k ≠ 0) := by
  intro n
  induction n using Nat.strong_induction_on with
  | _ n ih =>
    intro s hn
    by_cases hnil : s = []
    · subst hnil
      refine iff_of_false ?_ (by simp [tail])
      rintro ⟨m, r, hr, hend, hne⟩
      exact hne (congrArg Prod.fst (cuts_replicate_nil hk m r hr))
    by_cases hrag : Ragged (cut stop k s)
    · -- the first piece is already the last one
      refine iff_of_true ⟨1, _, List.mem_cons_self, hrag⟩ ?_
      obtain ⟨heq, hlt, hno⟩ := cut_eof k s hrag.1
      rw [tail_of_none hno, Nat.mod_eq_of_lt hlt]
      exact fun h => hnil (List.length_eq_zero_iff.mp h)
    · -- otherwise go on behind it
      have hpos : 0 < (cut stop k s).1.length := List.length_pos_iff.mpr (cut_ne_nil hk hnil)
      have hspos := List.length_pos_iff.mpr hnil
      have hrec := ih _ (by rw [List.length_drop]; omega)
        (s.drop (cut stop k s).1.length) rfl
      rw [length_tail_mod hrag, ← hrec]
      constructor
      · rintro ⟨m, r, hr, hr'⟩
        cases m with
        | zero => simp at hr
        | succ m =>
          rw [List.replicate_succ, cuts_cons, List.mem_cons] at hr
          rcases hr with rfl | hr
          · exact absurd hr' hrag
          · exact ⟨m, r, hr, hr'⟩
      · rintro ⟨m, r, hr, hr'⟩
        refine ⟨m + 1, r, ?_, hr'⟩
        rw [List.replicate_succ, cuts_cons]
        exact List.mem_cons_of_mem _ hr

/-- **When no piece is cut short by the end of the stream**: exactly when the length
of the tail is a multiple of the bound. -/
theorem forall_not_ragged_iff {k : ℕ} (hk : 0 < k) (s : List α) :
    (∀ m, ∀ r ∈ cuts stop (List.replicate m k) s, ¬ Ragged r) ↔ (tail stop s).length % k = 0 := by
  have hiff := not_congr (@exists_ragged_iff _ stop k hk _ s rfl)
  rw [not_not] at hiff
  rw [← hiff]
  simp only [not_exists, not_and]

end Cut
