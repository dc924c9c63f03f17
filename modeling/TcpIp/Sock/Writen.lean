import TcpIp.Io.Transfer

/-!
# The `writen` of the program `sock`

The program `sock` has a `writen` of its own (`sock/writen.c`).  It keeps the result of
`write` in a `size_t`, so that the test for an error only finds a result of `0`: the `-1`
of a failed `write` is the largest number there is.  Subtracting it adds one to the
number of bytes left, adding it to the pointer moves that one back, and the loop goes on.

## Main definitions

* `writenLoop`, `writen` — the function of the source.
* `Reports` — what its callers rely on.
* `Undisturbed` — every `write` returns a positive number, until `n` bytes are written.

## Main results

* `reports_iff` — when they can.
-/

namespace TcpIp.Sock

open Io CallLoop

/-- The loop of `writen` of `sock`. -/
def writenLoop (n : BitVec 64) : Loop WState (Except Errno ℕ) ℤ where
  exit s := if s.nleft = 0#64 then some n.toInt else none
  body s res :=
    let nwritten := writeRet s.nleft res
    let s := s.write res
    -- an unsigned comparison
    if nwritten.toNat ≤ 0 then (some nwritten.toInt, s) else (none, s.advance nwritten)

/-- `writen(fd, vptr, n)` of `sock`, with these results of `write`. -/
def writen (n : BitVec 64) (results : List (Except Errno ℕ)) : Out WState ℤ :=
  (writenLoop n).run results ⟨n, 0#64, []⟩

/-- What the callers of `writen` rely on. -/
structure Reports (n : BitVec 64) (results : List (Except Errno ℕ)) (out : Out WState ℤ) :
    Prop where
  /-- If it returns `n`, the bytes have been accepted, once each and in order. -/
  all : out.ret = some (n.toNat : ℤ) → out.state.accepted = span 0#64 n.toNat
  /-- A `write` that fails is the last one, and what is returned is not positive. -/
  stops : ∀ k e, k < out.calls → results[k]? = some (.error e) →
    out.calls = k + 1 ∧ ∃ v ≤ 0, out.ret = some v
  /-- Without an `EINTR` it does what the `writen` of the library does. -/
  agrees : (∀ res ∈ results.take out.calls, res ≠ .error .eintr) → out = Io.writen n results

/-- Until `n` bytes have been written, every `write` returns a positive number. -/
def Undisturbed : ℕ → List (Except Errno ℕ) → Prop
  | _, [] => True
  | n, .ok k :: results => n = 0 ∨ 0 < k ∧ Undisturbed (n - k) results
  | n, .error _ :: _ => n = 0

/-! ### One round -/

/-- What one round of the loop does. -/
inductive Round (s : WState) : Except Errno ℕ → Option ℤ × WState → Prop
  | accept {k : ℕ} (hpos : 0 < count k s.nleft) :
    Round s (.ok k) (none, s.accept (count k s.nleft))
  | zero : Round s (.ok 0) (some 0, s)
  | error {e : Errno} : Round s (.error e) (none, s.advance (-1#64))

section

variable {n : BitVec 64} {s : WState}

theorem round (n : BitVec 64) (hgo : s.nleft ≠ 0#64) (res : Except Errno ℕ) :
    Round s res ((writenLoop n).body s res) := by
  cases res with
  | ok k =>
    have htoNat := toNat_ofNat_of_le (count_le k s.nleft)
    rcases Nat.eq_zero_or_pos (count k s.nleft) with hzero | hpos
    · have hbody : (writenLoop n).body s (.ok k) = (some 0, s) := by
        simp [writenLoop, writeRet, hzero, WState.write, writeAccepts]
      rw [hbody, (count_eq_zero_iff hgo).mp hzero]
      exact .zero
    · have hnot : ¬count k s.nleft ≤ 0 := by omega
      have hbody : (writenLoop n).body s (.ok k) = (none, s.accept (count k s.nleft)) := by
        simp only [writenLoop, writeRet, htoNat, hnot, if_false, WState.write, writeAccepts,
          WState.advance, WState.accept]
      rw [hbody]
      exact .accept hpos
  | error e =>
    have hbody : (writenLoop n).body s (.error e) = (none, s.advance (-1#64)) := by
      simp [writenLoop, writeRet, WState.write, writeAccepts]
    rw [hbody]
    exact .error

theorem exit_eq (n : BitVec 64) (s : WState) : (writenLoop n).exit s = (Io.writenLoop n).exit s :=
  rfl

/-- Where the kernel accepts something, the two functions do the same. -/
theorem body_of_pos (hgo : s.nleft ≠ 0#64) {k : ℕ} (hk : 0 < k) :
    (writenLoop n).body s (.ok k) = (none, s.accept (count k s.nleft)) ∧
      (Io.writenLoop n).body s (.ok k) = (none, s.accept (count k s.nleft)) := by
  have hround := round n hgo (.ok k)
  have hround' := writeRound n hgo (.ok k)
  constructor
  · generalize (writenLoop n).body s (.ok k) = r at hround
    cases hround with
    | accept => rfl
    | zero => exact absurd hk (Nat.lt_irrefl 0)
  · generalize (Io.writenLoop n).body s (.ok k) = r at hround'
    cases hround' with
    | accept => rfl
    | stop hstops =>
      obtain hzero | ⟨e, herr, -⟩ := hstops
      · cases hzero
        exact absurd hk (Nat.lt_irrefl 0)
      · cases herr

/-- What is left after a `write`. -/
theorem nleft_accept {k : ℕ} (hmax : s.nleft.toNat ≤ ssizeMax) :
    (s.accept (count k s.nleft)).nleft.toNat = s.nleft.toNat - k := by
  have hle := count_le_nbyte k s.nleft
  simp only [WState.accept]
  rw [toNat_sub_ofNat hle]
  unfold count
  omega

end

/-! ### Runs -/

/-- **An undisturbed run** is that of the library's function, and no `write` fails in it. -/
theorem run_of_undisturbed (n : BitVec 64) : ∀ (results : List (Except Errno ℕ)) (s : WState),
    s.nleft.toNat ≤ ssizeMax → Undisturbed s.nleft.toNat results →
    (writenLoop n).run results s = (Io.writenLoop n).run results s ∧
      ∀ k e, k < ((writenLoop n).run results s).calls → results[k]? ≠ some (.error e) := by
  intro results
  induction results with
  | nil =>
    intro s _ _
    exact ⟨rfl, fun k e hk => absurd hk (Nat.not_lt_zero k)⟩
  | cons res results ih =>
    intro s hmax hundisturbed
    cases hexit : (writenLoop n).exit s with
    | some v =>
      rw [run_of_exit hexit, run_of_exit ((exit_eq n s).symm.trans hexit)]
      exact ⟨rfl, fun k e hk => absurd hk (Nat.not_lt_zero k)⟩
    | none =>
      have hgo : s.nleft ≠ 0#64 := exit_eq_none_iff.mp hexit
      have hpos : s.nleft.toNat ≠ 0 := fun hzero => hgo (BitVec.eq_of_toNat_eq hzero)
      cases res with
      | error e => exact absurd hundisturbed hpos
      | ok k =>
        obtain hzero | ⟨hk, hrest⟩ := hundisturbed
        · exact absurd hzero hpos
        · obtain ⟨hbody, hbody'⟩ := @body_of_pos n s hgo k hk
          rw [run_of_body_none hexit hbody,
            run_of_body_none ((exit_eq n s).symm.trans hexit) hbody']
          obtain ⟨heq, hnone⟩ := ih (s.accept (count k s.nleft))
            (by rw [nleft_accept hmax]; omega) (by rw [nleft_accept hmax]; exact hrest)
          refine ⟨by rw [heq], fun j e hj => ?_⟩
          cases j with
          | zero =>
            rw [List.getElem?_cons_zero]
            intro h
            cases h
          | succ j => exact hnone j e (Nat.lt_of_succ_lt_succ hj)

/-- How an error or a result of `0` shows. -/
def Disturbed (n : BitVec 64) (results : List (Except Errno ℕ)) (s : WState) : Prop :=
  (∃ k e, k < ((writenLoop n).run results s).calls ∧ results[k]? = some (.error e) ∧
    ¬(((writenLoop n).run results s).calls = k + 1 ∧
      ∃ v ≤ 0, ((writenLoop n).run results s).ret = some v)) ∨
  (((writenLoop n).run results s).ret = some 0 ∧
    ((Io.writenLoop n).run results s).ret = some (-1) ∧
    ∀ res ∈ results.take ((writenLoop n).run results s).calls, res ≠ .error .eintr)

/-- An error is not the end of the loop. -/
theorem disturbed_of_error {n : BitVec 64} {s : WState} (hgo : (writenLoop n).exit s = none)
    (hmax : s.nleft.toNat ≤ ssizeMax) (e : Errno) (results : List (Except Errno ℕ)) :
    Disturbed n (.error e :: results) s := by
  have hround := round n (exit_eq_none_iff.mp hgo) (.error e)
  have hbody : (writenLoop n).body s (.error e) = (none, s.advance (-1#64)) := by
    generalize (writenLoop n).body s (.error e) = r at hround
    cases hround
    rfl
  have hgo' : (writenLoop n).exit (s.advance (-1#64)) = none := by
    refine exit_eq_none_iff.mpr fun hzero => ?_
    -- one byte more than before is left to write
    have htoNat := congrArg BitVec.toNat hzero
    unfold ssizeMax at hmax
    simp only [WState.advance, BitVec.toNat_sub, BitVec.toNat_neg, BitVec.toNat_ofNat] at htoNat
    omega
  refine .inl ⟨0, e, ?_, rfl, ?_⟩
  · rw [run_of_body_none hgo hbody]
    exact Nat.succ_pos _
  · rw [run_of_body_none hgo hbody]
    rintro ⟨hcalls, v, -, hret⟩
    have hnone := ret_of_calls_eq_zero hgo' (Nat.succ.inj hcalls)
    have hret' : ((writenLoop n).run results (s.advance (-1#64))).ret = some v := hret
    rw [hnone] at hret'
    cases hret'

/-- **A run that is disturbed shows it.** -/
theorem disturbed_of_not (n : BitVec 64) : ∀ (results : List (Except Errno ℕ)) (s : WState),
    s.nleft.toNat ≤ ssizeMax → ¬Undisturbed s.nleft.toNat results → Disturbed n results s := by
  intro results
  induction results with
  | nil => exact fun s _ hnot => absurd trivial hnot
  | cons res results ih =>
    intro s hmax hnot
    have hpos : s.nleft.toNat ≠ 0 := by
      intro hzero
      rw [hzero] at hnot
      cases res with
      | ok k => exact hnot (.inl rfl)
      | error e => exact hnot rfl
    have hgo : s.nleft ≠ 0#64 := fun hzero => hpos (congrArg BitVec.toNat hzero)
    have hexit : (writenLoop n).exit s = none := exit_eq_none_iff.mpr hgo
    cases res with
    | error e => exact disturbed_of_error hexit hmax e results
    | ok k =>
      rcases Nat.eq_zero_or_pos k with rfl | hk
      · -- the two functions report it in different ways
        have hcount : count 0 s.nleft = 0 := (count_eq_zero_iff hgo).mpr rfl
        have hbody : (writenLoop n).body s (.ok 0) = (some 0, s) := by
          simp [writenLoop, writeRet, hcount, WState.write, writeAccepts]
        have hbody' : (Io.writenLoop n).body s (.ok 0) = (some (-1), s) := by
          simp [Io.writenLoop, writeRet, hcount, interrupted, WState.write, writeAccepts]
        refine .inr ?_
        rw [run_of_body_some hexit hbody,
          run_of_body_some ((exit_eq n s).symm.trans hexit) hbody']
        refine ⟨rfl, rfl, fun res hres => ?_⟩
        rw [List.take_succ_cons, List.take_zero, List.mem_singleton] at hres
        rw [hres]
        intro h
        cases h
      · obtain ⟨hbody, hbody'⟩ := @body_of_pos n s hgo k hk
        have hrest : ¬Undisturbed (s.accept (count k s.nleft)).nleft.toNat results := by
          rw [nleft_accept hmax]
          exact fun hrest => hnot (.inr ⟨hk, hrest⟩)
        unfold Disturbed
        rw [run_of_body_none hexit hbody,
          run_of_body_none ((exit_eq n s).symm.trans hexit) hbody']
        obtain ⟨j, e, hj, hres, hgoes⟩ | ⟨hret, hret', hnone⟩ :=
          ih (s.accept (count k s.nleft)) (by rw [nleft_accept hmax]; omega) hrest
        · refine .inl ⟨j + 1, e, Nat.succ_lt_succ hj, hres, ?_⟩
          rintro ⟨hcalls, hret⟩
          exact hgoes ⟨Nat.succ.inj hcalls, hret⟩
        · refine .inr ⟨hret, hret', fun res hres => ?_⟩
          rw [Out.succ, List.take_succ_cons] at hres
          rcases List.mem_cons.mp hres with rfl | hres
          · intro h
            cases h
          · exact hnone res hres

/-- **When the callers can rely on `writen`.**  For every area of memory and all results of
`write`: `n` is returned for `n` bytes accepted in order only, an error ends the function
with a value that is not positive, and it agrees with the function of the library, exactly
if every `write` returns a positive number until the `n` bytes are written. -/
theorem reports_iff (a : Area) (results : List (Except Errno ℕ)) :
    Reports a.n results (writen a.n results) ↔ Undisturbed a.n.toNat results := by
  constructor
  · intro h
    by_contra hnot
    obtain ⟨k, e, hk, hres, hgoes⟩ | ⟨hret, hret', hnone⟩ :=
      disturbed_of_not a.n results ⟨a.n, 0#64, []⟩ a.n_le hnot
    · exact hgoes (h.stops k e hk hres)
    · have hagrees := congrArg Out.ret (h.agrees hnone)
      have hsame : some (0 : ℤ) = some (-1) := hret.symm.trans (hagrees.trans hret')
      cases hsame
  · intro hundisturbed
    obtain ⟨heq, hnone⟩ := run_of_undisturbed a.n results ⟨a.n, 0#64, []⟩ a.n_le hundisturbed
    have hsame : writen a.n results = Io.writen a.n results := heq
    refine ⟨fun hret => ?_, fun k e hk hres => absurd hres (hnone k e hk), fun _ => hsame⟩
    rw [hsame] at hret ⊢
    exact (writen_exact a results).all_iff.mp hret

/-- A `write` of one byte fails.  The next one is given two bytes, the first of which is in
front of the buffer; it accepts both, and `1` is returned. -/
theorem error_not_reported :
    (writen 1#64 [.error .epipe, .ok 2]).ret = some 1 ∧
      (writen 1#64 [.error .epipe, .ok 2]).state.accepted = [-1#64, 0#64] ∧
      (Io.writen 1#64 [.error .epipe, .ok 2]).ret = some (-1) := by
  decide

end TcpIp.Sock
