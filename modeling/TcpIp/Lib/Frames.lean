import Mathlib.Data.Int.Notation
import Mathlib.Data.List.Basic
import Mathlib.Tactic.Common

/-!
# Records one behind the other

Programs go through memory that holds records of different lengths, one behind the other:
each turn of the loop looks at the record at the current position, reads its length there
and moves on by it, until the length of the whole is used up.

Where the memory really is a list of records, each of which holds its own length, such a
loop is a loop over that list.

## Main definitions

* `scan` — the loop.
* `run` — the loop over a list of records, whose items in memory are given by `bytes`.
* `walk` — a loop over memory that is changed on the way.
* `Comes` — the positions the loop comes to, in whatever memory.
* `fit` — the first records that fit into some room.

## Main results

* `scan_eq_run` — the loop over memory is the loop over its records, and the length is
  used up exactly.
* `run_ends` — the rule for an invariant of the loop.
* `walk_related` — the loop over memory that is changed, and a loop over its records.
* `run_flatMap` — the loop over groups of records.
* `scan_isSome_iff` — the loop ends exactly if it does not come to a length of zero.
* `fit_eq_self_of_room` — if there is room left for any one record, all of them have fitted.
-/

namespace Frames

variable {α β σ ρ : Type*}

/-- While there is something left, the body looks at the current position, and the
position moves on by the length that is found there.  The body may end the loop with a
result.  The value is `none` if the loop has not ended after `fuel` turns. -/
def scan (stride : ℕ → ℕ) (body : σ → ℕ → Except ρ σ) :
    ℕ → ℕ → ℤ → σ → Option (Except ρ (σ × ℤ))
  | 0, _, left, s => if 0 < left then none else some (.ok (s, left))
  | fuel + 1, pos, left, s =>
    if 0 < left then
      match body s pos with
      | .error r => some (.error r)
      | .ok s' => scan stride body fuel (pos + stride pos) (left - stride pos) s'
    else some (.ok (s, left))

/-- The same over a list of records, the first of which stands at `pos`. -/
def run (bytes : β → List α) (g : σ → ℕ → β → Except ρ σ) : ℕ → List β → σ → Except ρ σ
  | _, [], s => .ok s
  | pos, c :: cs, s =>
    match g s pos c with
    | .error r => .error r
    | .ok s' => run bytes g (pos + (bytes c).length) cs s'

attribute [local simp] scan run

/-- What is said of the positions at which some items stand in `mem`. -/
def Standing (mem : List α) (P : ℕ → Prop) (items : List α) : Prop :=
  ∀ pre post, mem = pre ++ (items ++ post) → P pre.length

/-- **The loop over memory is the loop over its records.** -/
theorem scan_eq_run {bytes : β → List α} {mem : List α} {stride : ℕ → ℕ}
    {body : σ → ℕ → Except ρ σ} {g : σ → ℕ → β → Except ρ σ} :
    ∀ (cs : List β) (fuel : ℕ) (pre post : List α) (s : σ),
    mem = pre ++ ((cs.map bytes).flatten ++ post) →
    (∀ c ∈ cs, bytes c ≠ [] ∧ Standing mem (fun pos => stride pos = (bytes c).length) (bytes c)) →
    (∀ c ∈ cs, Standing mem (fun pos => ∀ s, body s pos = g s pos c) (bytes c)) →
    cs.length ≤ fuel →
    scan stride body fuel pre.length (cs.map bytes).flatten.length s =
      some ((run bytes g pre.length cs s).map (·, 0)) := by
  intro cs
  induction cs with
  | nil =>
    intro fuel pre post s _ _ _ _
    cases fuel with
    | zero => rfl
    | succ fuel => rfl
  | cons c cs ih =>
    intro fuel pre post s hmem hstride hbody hfuel
    obtain ⟨fuel, rfl⟩ : ∃ n, fuel = n + 1 := ⟨fuel - 1, by simp at hfuel; omega⟩
    rw [List.map_cons, List.flatten_cons, List.append_assoc] at hmem
    obtain ⟨hne, hlen⟩ := hstride c List.mem_cons_self
    have hleft : (0 : ℤ) < (((c :: cs).map bytes).flatten.length : ℕ) := by
      have := List.length_pos_of_ne_nil hne
      rw [List.map_cons, List.flatten_cons, List.length_append]
      omega
    rw [scan, if_pos hleft, run, hbody c List.mem_cons_self pre _ hmem]
    cases g s pre.length c with
    | error r => rfl
    | ok s' =>
      -- the rest of the records stand behind the first one
      have hnext := ih fuel (pre ++ bytes c) post s' (by rw [List.append_assoc]; exact hmem)
        (fun d hd => hstride d (List.mem_cons_of_mem c hd))
        (fun d hd => hbody d (List.mem_cons_of_mem c hd)) (by simpa using hfuel)
      have hrest : ((((c :: cs).map bytes).flatten.length : ℕ) : ℤ) - (bytes c).length =
          ((cs.map bytes).flatten.length : ℕ) := by
        rw [List.map_cons, List.flatten_cons, List.length_append]
        omega
      simp only [hlen pre _ hmem, hrest]
      rw [List.length_append] at hnext
      exact hnext

/-! ### Invariants -/

/-- What is said of the way a computation ends. -/
def Ends (E : ρ → Prop) (Q : σ → Prop) : Except ρ σ → Prop
  | .error r => E r
  | .ok s => Q s

theorem Ends.imp {E E' : ρ → Prop} {Q Q' : σ → Prop} {x : Except ρ σ} (h : Ends E Q x)
    (hE : ∀ r, E r → E' r) (hQ : ∀ s, Q s → Q' s) : Ends E' Q' x := by
  cases x with
  | error r => exact hE r h
  | ok s => exact hQ s h

theorem Ends.bind {τ : Type*} {E : ρ → Prop} {Q : σ → Prop} {R : τ → Prop} {x : Except ρ σ}
    {k : σ → Except ρ τ} (hx : Ends E Q x) (hk : ∀ s, Q s → Ends E R (k s)) :
    Ends E R (x.bind k) := by
  cases x with
  | error r => exact hx
  | ok s => exact hk s hx

/-- **The rule for an invariant**, which may speak of the position and of the records that
are left. -/
theorem run_ends {bytes : β → List α} {g : σ → ℕ → β → Except ρ σ} {E : ρ → Prop}
    {I : ℕ → List β → σ → Prop}
    (hstep : ∀ pos c cs s, I pos (c :: cs) s →
      Ends E (I (pos + (bytes c).length) cs) (g s pos c)) :
    ∀ (cs : List β) (pos : ℕ) (s : σ), I pos cs s →
    Ends E (I (pos + (cs.map bytes).flatten.length) []) (run bytes g pos cs s) := by
  intro cs
  induction cs with
  | nil => intro pos s hI; exact hI
  | cons c cs ih =>
    intro pos s hI
    have hc := hstep pos c cs s hI
    rw [run]
    cases hg : g s pos c with
    | error r =>
      rw [hg] at hc
      exact hc
    | ok s' =>
      rw [hg] at hc
      have hcs := ih _ s' hc
      rw [Nat.add_assoc, ← List.length_append] at hcs
      exact hcs

/-! ### Two loops -/

/-- What every turn keeps is kept by the loop. -/
theorem scan_keeps {stride : ℕ → ℕ} {body : σ → ℕ → Except ρ σ} {P : σ → Prop}
    (hstep : ∀ s pos, P s → Ends (fun _ => True) P (body s pos)) :
    ∀ (fuel pos : ℕ) (left : ℤ) (s : σ), P s → ∀ s' l,
    scan stride body fuel pos left s = some (.ok (s', l)) → P s' := by
  intro fuel
  induction fuel with
  | zero =>
    intro pos left s hs s' l hscan
    rw [scan] at hscan
    split at hscan <;> cases hscan
    exact hs
  | succ fuel ih =>
    intro pos left s hs s' l hscan
    have hnext := hstep s pos hs
    rw [scan] at hscan
    split at hscan
    · cases hbody : body s pos with
      | error r => rw [hbody] at hscan; cases hscan
      | ok t =>
        rw [hbody] at hscan hnext
        exact ih _ _ t hnext s' l hscan
    · cases hscan
      exact hs

/-- **Two loops over the same memory**, the first of which may end early.  Where it does not, the
states stay related by `R`; where it does, the state of the second one is `Bad`, and stays so. -/
theorem scan_related {τ ρ' : Type*} {stride : ℕ → ℕ} {body : σ → ℕ → Except ρ σ}
    {body' : τ → ℕ → Except ρ' τ} {R : σ → τ → Prop} {Bad : τ → Prop}
    (hstep : ∀ s t pos, R s t → Ends (fun _ => Ends (fun _ => False) Bad (body' t pos))
      (fun s' => Ends (fun _ => False) (R s') (body' t pos)) (body s pos))
    (hbad : ∀ t pos, Bad t → Ends (fun _ => False) Bad (body' t pos)) :
    ∀ (fuel pos : ℕ) (left : ℤ) (s : σ) (t : τ), R s t →
    (∀ s' l, scan stride body fuel pos left s = some (.ok (s', l)) →
      ∃ t', scan stride body' fuel pos left t = some (.ok (t', l)) ∧ R s' t') ∧
    (∀ t' l, scan stride body' fuel pos left t = some (.ok (t', l)) → ¬ Bad t' →
      ∃ s', scan stride body fuel pos left s = some (.ok (s', l)) ∧ R s' t') := by
  have hstays : ∀ t pos, Bad t → Ends (fun _ => True) Bad (body' t pos) :=
    fun t pos ht => (hbad t pos ht).imp (fun _ h => h.elim) fun _ h => h
  intro fuel
  induction fuel with
  | zero =>
    intro pos left s t hR
    simp only [scan]
    by_cases hleft : 0 < left
    · simp [hleft]
    · simp [hleft, hR]
  | succ fuel ih =>
    intro pos left s t hR
    have hnext := hstep s t pos hR
    simp only [scan]
    by_cases hleft : 0 < left
    · simp only [hleft, if_true]
      cases hs : body s pos with
      | error r =>
        rw [hs] at hnext
        refine ⟨fun s' l h => (by cases h), fun t' l h hgood => absurd ?_ hgood⟩
        cases ht : body' t pos with
        | error r' => rw [ht] at h; cases h
        | ok t₁ =>
          rw [ht] at h hnext
          exact scan_keeps hstays fuel _ _ t₁ hnext t' l h
      | ok s₁ =>
        rw [hs] at hnext
        cases ht : body' t pos with
        | error r' => rw [ht] at hnext; exact hnext.elim
        | ok t₁ =>
          rw [ht] at hnext
          exact ih _ _ s₁ t₁ hnext
    · simp [hleft, hR]

/-! ### Memory that is changed -/

section Changed

variable {stride : σ → ℕ → ℕ} {body : σ → ℕ → Except ρ σ} {stop : ℕ}

/-- A loop whose body may change the memory: it goes on up to the position `stop`, and the length
is read before the body has its turn. -/
def walk (stride : σ → ℕ → ℕ) (body : σ → ℕ → Except ρ σ) (stop : ℕ) :
    ℕ → ℕ → σ → Option (Except ρ σ)
  | 0, pos, s => if pos < stop then none else some (.ok s)
  | fuel + 1, pos, s =>
    if pos < stop then
      match body s pos with
      | .error r => some (.error r)
      | .ok s' => walk stride body stop fuel (pos + stride s pos) s'
    else some (.ok s)

attribute [local simp] walk

/-- **The loop over memory and a loop over its records** stay related, if each turn keeps them
so.  The relation may speak of the position and of the records that are left. -/
theorem walk_related {τ : Type*} {bytes : β → List α} {g : τ → β → Except ρ τ}
    {R : ℕ → List β → σ → τ → Prop}
    (hstep : ∀ pos c cs s t, R pos (c :: cs) s t →
      bytes c ≠ [] ∧ stride s pos = (bytes c).length ∧
      Ends (fun r => g t c = .error r)
        (fun s' => ∃ t', g t c = .ok t' ∧ R (pos + (bytes c).length) cs s' t') (body s pos)) :
    ∀ (cs : List β) (fuel pos : ℕ) (s : σ) (t : τ), R pos cs s t → cs.length ≤ fuel →
    pos + (cs.map bytes).flatten.length = stop →
    ∃ x, walk stride body stop fuel pos s = some x ∧
      Ends (fun r => cs.foldlM g t = .error r)
        (fun s' => ∃ t', cs.foldlM g t = .ok t' ∧ R stop [] s' t') x := by
  intro cs
  induction cs with
  | nil =>
    intro fuel pos s t hR _ hstop
    obtain rfl : pos = stop := hstop
    refine ⟨.ok s, ?_, t, rfl, hR⟩
    cases fuel <;> rw [walk, if_neg (Nat.lt_irrefl _)]
  | cons c cs ih =>
    intro fuel pos s t hR hfuel hstop
    obtain ⟨fuel, rfl⟩ : ∃ n, fuel = n + 1 := ⟨fuel - 1, by simp at hfuel; omega⟩
    obtain ⟨hne, hstride, hbody⟩ := hstep pos c cs s t hR
    have hlen := List.length_pos_of_ne_nil hne
    rw [List.map_cons, List.flatten_cons, List.length_append] at hstop
    rw [walk, if_pos (by omega), List.foldlM_cons]
    cases hs : body s pos with
    | error r =>
      rw [hs] at hbody
      exact ⟨.error r, rfl, by rw [hbody]; rfl⟩
    | ok s' =>
      rw [hs] at hbody
      obtain ⟨t', ht, hR'⟩ := hbody
      rw [ht, hstride]
      exact ih fuel _ s' t' hR' (by simpa using hfuel) (by omega)

end Changed

/-! ### Groups -/

theorem run_append {bytes : β → List α} {g : σ → ℕ → β → Except ρ σ} (ds : List β) :
    ∀ (cs : List β) (pos : ℕ) (s : σ), run bytes g pos (cs ++ ds) s =
    match run bytes g pos cs s with
    | .error r => .error r
    | .ok s' => run bytes g (pos + (cs.map bytes).flatten.length) ds s' := by
  intro cs
  induction cs with
  | nil => intro pos s; rfl
  | cons c cs ih =>
    intro pos s
    rw [List.cons_append, run, run]
    cases g s pos c with
    | error r => rfl
    | ok s' =>
      simp only [ih, List.map_cons, List.flatten_cons, List.length_append, Nat.add_assoc]

theorem run_map {γ : Type*} {bytes : β → List α} {g : σ → ℕ → β → Except ρ σ} (h : γ → β) :
    ∀ (cs : List γ) (pos : ℕ) (s : σ), run bytes g pos (cs.map h) s =
    run (fun c => bytes (h c)) (fun s pos c => g s pos (h c)) pos cs s := by
  intro cs
  induction cs with
  | nil => intro pos s; rfl
  | cons c cs ih =>
    intro pos s
    rw [List.map_cons, run, run]
    cases g s pos (h c) with
    | error r => rfl
    | ok s' => exact ih _ s'

/-- **The loop over groups of records** goes through the groups one after the other. -/
theorem run_flatMap {γ : Type*} {bytes : β → List α} {g : σ → ℕ → β → Except ρ σ}
    (recs : γ → List β) : ∀ (fs : List γ) (pos : ℕ) (s : σ),
    run bytes g pos (fs.flatMap recs) s =
      run (fun f => ((recs f).map bytes).flatten) (fun s pos f => run bytes g pos (recs f) s)
        pos fs s := by
  intro fs
  induction fs with
  | nil => intro pos s; rfl
  | cons f fs ih =>
    intro pos s
    rw [List.flatMap_cons, run_append, run]
    cases run bytes g pos (recs f) s with
    | error r => rfl
    | ok s' => exact ih _ s'

/-! ### Any memory -/

section Walk

variable {stride : ℕ → ℕ} {body : σ → ℕ → Except ρ σ} {pos p : ℕ} {left l : ℤ}

/-- The loop comes to the position `p` with `l` left, where it looks at a record. -/
inductive Comes (stride : ℕ → ℕ) (p : ℕ) (l : ℤ) : ℕ → ℤ → Prop
  | here : 0 < l → Comes stride p l p l
  | next {pos : ℕ} {left : ℤ} : 0 < left →
      Comes stride p l (pos + stride pos) (left - stride pos) → Comes stride p l pos left

theorem Comes.left_pos (h : Comes stride p l pos left) : 0 < l := by
  induction h with
  | here hpos => exact hpos
  | next _ _ ih => exact ih

/-- What is left ends where the whole ends. -/
theorem Comes.add_left (h : Comes stride p l pos left) : p + l = pos + left := by
  induction h with
  | here _ => rfl
  | next _ _ ih =>
    push_cast at ih
    omega

theorem Comes.dvd_left {m : ℤ} (h : Comes stride p l pos left) (hstride : ∀ i, m ∣ stride i)
    (hleft : m ∣ left) : m ∣ l := by
  induction h with
  | here _ => exact hleft
  | next _ _ ih => exact ih (Int.dvd_sub hleft (hstride _))

/-- The loop ends if it comes to positive lengths only. -/
theorem scan_isSome_of_pos (hbody : ∀ s i r, body s i ≠ .error r) :
    ∀ (fuel pos : ℕ) (left : ℤ) (s : σ), left ≤ fuel →
    (∀ p l, Comes stride p l pos left → 0 < stride p) →
    (scan stride body fuel pos left s).isSome = true := by
  intro fuel
  induction fuel with
  | zero =>
    intro pos left s hfuel _
    rw [scan, if_neg (by omega)]
    rfl
  | succ fuel ih =>
    intro pos left s hfuel hpos
    rw [scan]
    split
    · next hleft =>
      cases hb : body s pos with
      | error r => exact absurd hb (hbody s pos r)
      | ok s' =>
        have hstride := hpos pos left (.here hleft)
        refine ih _ _ s' (by omega) fun p l h => hpos p l (.next hleft h)
    · rfl

/-- The loop does not get past a length of zero. -/
theorem scan_eq_none_of_zero (hbody : ∀ s i r, body s i ≠ .error r)
    (h : Comes stride p l pos left) (hzero : stride p = 0) :
    ∀ (fuel : ℕ) (s : σ), scan stride body fuel pos left s = none := by
  intro fuel
  induction fuel generalizing pos left with
  | zero =>
    intro s
    have hleft : 0 < left := by cases h <;> assumption
    rw [scan, if_pos hleft]
  | succ fuel ih =>
    intro s
    have hleft : 0 < left := by cases h <;> assumption
    rw [scan, if_pos hleft]
    cases hb : body s pos with
    | error r => exact absurd hb (hbody s pos r)
    | ok s' =>
      cases h with
      | here _ => simpa [hzero] using ih (.here hleft) s'
      | next _ hnext => exact ih hnext s'

/-- **The loop ends exactly if it does not come to a length of zero.** -/
theorem scan_isSome_iff (hbody : ∀ s i r, body s i ≠ .error r) (s : σ) :
    (∃ fuel, (scan stride body fuel pos left s).isSome = true) ↔
      ∀ p l, Comes stride p l pos left → stride p ≠ 0 := by
  constructor
  · rintro ⟨fuel, hsome⟩ p l hcomes hzero
    rw [scan_eq_none_of_zero hbody hcomes hzero fuel s] at hsome
    cases hsome
  · intro hpos
    refine ⟨left.toNat, scan_isSome_of_pos hbody _ _ _ s (by omega) ?_⟩
    exact fun p l hcomes => Nat.pos_of_ne_zero (hpos p l hcomes)

end Walk

/-! ### What fits -/

section Fit

variable {m : ℕ}

/-- The records that fit into a room of `len` items, one behind the other. -/
def fit : ℕ → List (List α) → List (List α)
  | _, [] => []
  | len, r :: rs => if r.length ≤ len then r :: fit (len - r.length) rs else []

attribute [local simp] fit

theorem length_fit_le : ∀ (rs : List (List α)) (len : ℕ),
    (fit len rs).flatten.length ≤ len ∧ (fit len rs).flatten.length ≤ rs.flatten.length := by
  intro rs
  induction rs with
  | nil => intro len; simp [fit]
  | cons r rs ih =>
    intro len
    rw [fit]
    split
    · obtain ⟨hlen, htotal⟩ := ih (len - r.length)
      rw [List.flatten_cons, List.flatten_cons, List.length_append, List.length_append]
      omega
    · simp

/-- If there is room for all of them, all of them fit. -/
theorem fit_eq_self : ∀ (rs : List (List α)) (len : ℕ), rs.flatten.length ≤ len →
    fit len rs = rs := by
  intro rs
  induction rs with
  | nil => intro len _; rfl
  | cons r rs ih =>
    intro len hlen
    rw [List.flatten_cons, List.length_append] at hlen
    rw [fit, if_pos (by omega), ih (len - r.length) (by omega)]

/-- **If the room that is left is enough for any one record, all of them have fitted.** -/
theorem fit_eq_self_of_room : ∀ (rs : List (List α)) (len : ℕ), (∀ r ∈ rs, r.length ≤ m) →
    (fit len rs).flatten.length + m ≤ len → fit len rs = rs := by
  intro rs
  induction rs with
  | nil => intro len _ _; rfl
  | cons r rs ih =>
    intro len hrs hroom
    obtain ⟨hr, hrs⟩ := List.forall_mem_cons.mp hrs
    rw [fit] at hroom ⊢
    split at hroom
    · next hle =>
      rw [List.flatten_cons, List.length_append] at hroom
      rw [if_pos hle, ih (len - r.length) hrs (by omega)]
    · rw [List.flatten_nil, List.length_nil] at hroom
      omega

/-- The records that fit are the first ones. -/
theorem fit_isPrefix : ∀ (rs : List (List α)) (len : ℕ), fit len rs <+: rs := by
  intro rs
  induction rs with
  | nil => intro len; exact List.prefix_refl []
  | cons r rs ih =>
    intro len
    rw [fit]
    split
    · exact List.cons_prefix_cons.mpr ⟨rfl, ih _⟩
    · exact List.nil_prefix

/-- **No more of the first records fit.** -/
theorem isPrefix_fit : ∀ (rs ps : List (List α)) (len : ℕ), ps <+: rs → ps.flatten.length ≤ len →
    ps <+: fit len rs := by
  intro rs
  induction rs with
  | nil => intro ps len hps _; exact hps
  | cons r rs ih =>
    intro ps len hps hlen
    cases ps with
    | nil => exact List.nil_prefix
    | cons p ps =>
      obtain ⟨hp, hps'⟩ := List.cons_prefix_cons.mp hps
      subst hp
      rw [List.flatten_cons, List.length_append] at hlen
      rw [fit, if_pos (by omega)]
      exact List.cons_prefix_cons.mpr ⟨rfl, ih ps _ hps' (by omega)⟩

end Fit

end Frames
