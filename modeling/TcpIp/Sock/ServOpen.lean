import Mathlib.Logic.Function.Basic
import TcpIp.Lib.Run

/-!
# The forking server of `sock`

With the option for a concurrent server, `servopen` forks a child for each connection and
waits until the child has written to the terminal.  The child says so with `SIGUSR2`
(`TELL_PARENT`); the handler sets `sigflag`, and `WAIT_CHILD` suspends the parent until it
is set.  Between the test of `sigflag` and `sigsuspend` the signal has to be blocked, or
the handler may run there and the parent suspends itself for a signal it has already
had.

`TELL_WAIT` blocks the signal, once, before the first connection is accepted.
`WAIT_CHILD` ends by restoring the mask that was in force before that, so from the second
connection on the signal is not blocked any more.

## Main definitions

* `Sys`, `Act`, `step`, `init` — the server, its children and the signal.
* `Sys.Lost` — the parent is suspended although the handler has run.

## Main results

* `lost_forever` — a parent that has lost its signal stays suspended.
* `never_lost_iff` — when no signal is lost.
* `second_connection_lost` — a run that loses the signal of the second child.
-/

namespace TcpIp.Sock

open Run

/-- Where the parent is. -/
inductive Pc where
  /-- About to call `TELL_WAIT`. -/
  | tellWait
  /-- In `accept`. -/
  | accept
  /-- About to call `fork`. -/
  | fork
  /-- In `WAIT_CHILD`, about to test `sigflag == 0`. -/
  | test
  /-- About to call `sigsuspend`. -/
  | suspend
  /-- In `sigsuspend`. -/
  | suspended
  /-- About to reset `sigflag`. -/
  | clear
  /-- About to restore `oldmask`. -/
  | restore
  /-- `err_sys` has been called. -/
  | exited
  deriving DecidableEq, Repr

/-- What a child has done. -/
inductive Child where
  /-- There is none. -/
  | none
  /-- It has not called `TELL_PARENT`. -/
  | running
  /-- It has called `TELL_PARENT`. -/
  | told
  /-- It has left through `err_sys` before. -/
  | dead
  deriving DecidableEq, Repr

/-- The server.  Of the signal masks only the bit of `SIGUSR2` is kept: `SIGUSR1` is not
sent. -/
structure Sys where
  pc : Pc
  sigflag : Bool
  /-- `SIGUSR2` is blocked. -/
  blocked : Bool
  /-- `SIGUSR2` is in `oldmask`. -/
  oldmask : Bool
  /-- `SIGUSR2` has been sent to the parent and not been delivered. -/
  pending : Bool
  /-- The connections that are still to come. -/
  arrivals : ℕ
  /-- How many connections have been accepted. -/
  conns : ℕ
  /-- The child of each connection; they are numbered from 1. -/
  child : ℕ → Child

inductive Act where
  /-- The parent goes on. -/
  | parent
  /-- `accept` or `fork` fails. -/
  | fail
  /-- A child calls `TELL_PARENT`. -/
  | tell (k : ℕ)
  /-- A child leaves through `err_sys`. -/
  | die (k : ℕ)
  /-- `SIGUSR2` is delivered. -/
  | deliver
  deriving DecidableEq, Repr

/-- The process as it starts, with `SIGUSR2` blocked or not in the mask it has inherited,
and `n` connections to come. -/
def init (mask : Bool) (n : ℕ) : Sys where
  pc := .tellWait
  sigflag := false
  blocked := mask
  oldmask := false
  pending := false
  arrivals := n
  conns := 0
  child := fun _ => .none

/-- The next statement of the parent. -/
def parent (s : Sys) : Option Sys :=
  match s.pc with
  | .tellWait => some { s with pc := .accept, oldmask := s.blocked, blocked := true }
  | .accept =>
    match s.arrivals with
    | 0 => none
    | n + 1 => some { s with pc := .fork, arrivals := n, conns := s.conns + 1 }
  | .fork => some { s with pc := .test, child := Function.update s.child s.conns .running }
  | .test => some { s with pc := if s.sigflag then .clear else .suspend }
  | .suspend => some { s with pc := .suspended }
  -- `sigsuspend` returns when a handler does
  | .suspended => none
  | .clear => some { s with pc := .restore, sigflag := false }
  | .restore => some { s with pc := .accept, blocked := s.oldmask }
  | .exited => none

/-- `SIGUSR2` can be delivered.  In `sigsuspend` the mask is `zeromask`. -/
def deliverable (s : Sys) : Prop := s.pending = true ∧ (s.pc = .suspended ∨ s.blocked = false)

instance (s : Sys) : Decidable (deliverable s) :=
  inferInstanceAs (Decidable (_ ∧ (_ ∨ _)))

/-- `sig_usr` runs. -/
def sigUsr (s : Sys) : Sys :=
  { s with pending := false, sigflag := true, pc := if s.pc = .suspended then .test else s.pc }

def step (s : Sys) : Act → Option Sys
  | .parent => parent s
  | .fail => if s.pc = .accept ∨ s.pc = .fork then some { s with pc := .exited } else none
  | .tell k =>
    if s.child k = .running then
      some { s with child := Function.update s.child k .told, pending := true }
    else none
  | .die k =>
    if s.child k = .running then some { s with child := Function.update s.child k .dead } else none
  | .deliver => if deliverable s then some (sigUsr s) else none

/-- What a step is: the parent goes on or fails, a running child does something for the last
time, or the handler runs. -/
theorem step_cases {s s' : Sys} {a : Act} (hs : step s a = some s') :
    parent s = some s' ∨
    ((s.pc = .accept ∨ s.pc = .fork) ∧ s' = { s with pc := .exited }) ∨
    (∃ k c pending, s.child k = .running ∧ c ≠ .running ∧
      s' = { s with child := Function.update s.child k c, pending }) ∨
    (deliverable s ∧ s' = sigUsr s) := by
  cases a with
  | parent => exact .inl hs
  | fail =>
    obtain ⟨hpc, hs⟩ := Option.ite_none_right_eq_some.mp hs
    exact .inr (.inl ⟨hpc, (Option.some.inj hs).symm⟩)
  | tell k =>
    obtain ⟨hk, hs⟩ := Option.ite_none_right_eq_some.mp hs
    exact .inr (.inr (.inl ⟨k, .told, true, hk, by decide, (Option.some.inj hs).symm⟩))
  | die k =>
    obtain ⟨hk, hs⟩ := Option.ite_none_right_eq_some.mp hs
    exact .inr (.inr (.inl ⟨k, .dead, s.pending, hk, by decide, (Option.some.inj hs).symm⟩))
  | deliver =>
    obtain ⟨hd, hs⟩ := Option.ite_none_right_eq_some.mp hs
    exact .inr (.inr (.inr ⟨hd, (Option.some.inj hs).symm⟩))

/-- The parent is suspended, the child it waits for has sent its signal, and the handler has
run. -/
def Sys.Lost (s : Sys) : Prop :=
  s.pc = .suspended ∧ s.child s.conns = .told ∧ s.sigflag = true

instance (s : Sys) : Decidable s.Lost := inferInstanceAs (Decidable (_ ∧ _ ∧ _))

/-! ### Signals and the children -/

/-- The parent waits for a child. -/
def Pc.waiting : Pc → Bool
  | .test => true
  | .suspend => true
  | .suspended => true
  | _ => false

/-- The parent deals with a connection. -/
def Pc.serving : Pc → Bool
  | .fork => true
  | .clear => true
  | .restore => true
  | pc => pc.waiting

/-- There is a signal that the handler has not seen. -/
def Sys.Owed (s : Sys) : Prop := s.pending = true ∨ ∃ k, s.child k = .running

/-- What is true in every run, from the mask `mask` and with `n` connections. -/
structure Inv (mask : Bool) (n : ℕ) (s : Sys) : Prop where
  total : s.conns + s.arrivals = n
  counted : s.pc.serving = true → 1 ≤ s.conns
  /-- A child is running only while the parent waits for it. -/
  running : ∀ k, s.child k = .running → k = s.conns
  once : s.pending = true → ∀ k, s.child k ≠ .running
  owed : s.Owed → s.pc.waiting = true ∧ s.sigflag = false
  flag : s.sigflag = true → s.pc.waiting = true ∨ s.pc = .clear
  start : s.pc = .tellWait → s.blocked = mask
  oldmask : s.pc ≠ .tellWait → s.oldmask = mask
  /-- The signal is blocked until the first connection has been dealt with. -/
  accept : s.pc = .accept → s.blocked = true ∨ mask = false ∧ 1 ≤ s.conns
  blocked : s.pc.serving = true → s.blocked = true ∨ mask = false ∧ 2 ≤ s.conns

theorem inv_init (mask : Bool) (n : ℕ) : Inv mask n (init mask n) where
  total := Nat.zero_add n
  counted h := by cases h
  running k h := by cases h
  once h := by cases h
  owed h := by
    rcases h with h | ⟨k, h⟩
    · cases h
    · cases h
  flag h := by cases h
  start _ := rfl
  oldmask h := absurd rfl h
  accept h := by cases h
  blocked h := by cases h

section Step

variable {mask : Bool} {n : ℕ} {s s' : Sys}

theorem Inv.not_owed (h : Inv mask n s) (hpc : s.pc.waiting = false) : ¬ s.Owed := by
  intro howed
  rw [(h.owed howed).1] at hpc
  cases hpc

theorem Inv.sigflag_eq (h : Inv mask n s) (hpc : s.pc.waiting = false) (hclear : s.pc ≠ .clear) :
    s.sigflag = false := by
  by_contra hflag
  rcases h.flag (by simpa using hflag) with hwait | hc
  · rw [hwait] at hpc
    cases hpc
  · exact hclear hc

theorem Pc.serving_of_waiting {pc : Pc} (h : pc.waiting = true) : pc.serving = true := by
  cases pc <;> first | rfl | cases h

/-- The parent goes on in `WAIT_CHILD`. -/
theorem Inv.wait (h : Inv mask n s) (hpc : s.pc.waiting = true) {pc : Pc}
    (hpc' : pc.waiting = true) : Inv mask n { s with pc } where
  total := h.total
  counted _ := h.counted (Pc.serving_of_waiting hpc)
  running := h.running
  once := h.once
  owed ho := ⟨hpc', (h.owed ho).2⟩
  flag _ := .inl hpc'
  start hc := by rw [show pc = .tellWait from hc] at hpc'; cases hpc'
  oldmask _ := h.oldmask fun hc => by rw [hc] at hpc; cases hpc
  accept hc := by rw [show pc = .accept from hc] at hpc'; cases hpc'
  blocked _ := h.blocked (Pc.serving_of_waiting hpc)

/-- The parent goes on while no signal is owed. -/
theorem Inv.goto (h : Inv mask n s) (hno : ¬ s.Owed) {pc : Pc}
    (hflag : s.sigflag = true → pc = .clear) (hold : s.oldmask = mask)
    (hserving : pc.serving = true → s.pc.serving = true) (hstart : pc ≠ .tellWait)
    (haccept : pc ≠ .accept) : Inv mask n { s with pc } where
  total := h.total
  counted hc := h.counted (hserving hc)
  running := h.running
  once := h.once
  owed ho := absurd ho hno
  flag hf := .inr (hflag hf)
  start hc := absurd hc hstart
  oldmask _ := hold
  accept hc := absurd hc haccept
  blocked hc := h.blocked (hserving hc)

/-- The parent goes on. -/
theorem Inv.parent (h : Inv mask n s) (hs : parent s = some s') : Inv mask n s' := by
  unfold Sock.parent at hs
  cases hpc : s.pc with
  | tellWait =>
    simp only [hpc, Option.some.injEq] at hs
    subst hs
    have hno := h.not_owed (by rw [hpc]; rfl)
    have hflag := h.sigflag_eq (by rw [hpc]; rfl) (by rw [hpc]; decide)
    exact { h with
      counted := fun hc => by cases hc
      owed := fun ho => absurd ho hno
      flag := fun hf => by rw [hflag] at hf; cases hf
      start := fun hc => by cases hc
      oldmask := fun _ => h.start hpc
      accept := fun _ => .inl rfl
      blocked := fun hc => by cases hc }
  | accept =>
    simp only [hpc] at hs
    split at hs
    · cases hs
    next n' hn =>
    cases hs
    have hno := h.not_owed (by rw [hpc]; rfl)
    have hflag := h.sigflag_eq (by rw [hpc]; rfl) (by rw [hpc]; decide)
    exact { h with
      total := by have := h.total; simp only; omega
      counted := fun _ => Nat.succ_pos _
      running := fun k hk => absurd (.inr ⟨k, hk⟩) hno
      owed := fun ho => absurd ho hno
      flag := fun hf => by rw [hflag] at hf; cases hf
      start := fun hc => by cases hc
      oldmask := fun _ => h.oldmask (by rw [hpc]; decide)
      accept := fun hc => by cases hc
      blocked := fun _ => (h.accept hpc).imp_right fun hm => ⟨hm.1, Nat.succ_le_succ hm.2⟩ }
  | fork =>
    simp only [hpc, Option.some.injEq] at hs
    subst hs
    have hno := h.not_owed (by rw [hpc]; rfl)
    have hflag := h.sigflag_eq (by rw [hpc]; rfl) (by rw [hpc]; decide)
    exact { h with
      counted := fun _ => h.counted (by rw [hpc]; rfl)
      running := by
        intro k hk
        by_contra hne
        simp only [Function.update_of_ne hne] at hk
        exact hno (.inr ⟨k, hk⟩)
      once := fun hp => absurd (.inl hp) hno
      owed := fun _ => ⟨rfl, hflag⟩
      flag := fun hf => by rw [hflag] at hf; cases hf
      start := fun hc => by cases hc
      oldmask := fun _ => h.oldmask (by rw [hpc]; decide)
      accept := fun hc => by cases hc
      blocked := fun _ => h.blocked (by rw [hpc]; rfl) }
  | test =>
    simp only [hpc, Option.some.injEq] at hs
    subst hs
    by_cases hflag : s.sigflag
    · rw [if_pos hflag]
      -- the signal has been seen, so that none is owed
      have hno : ¬ s.Owed := fun ho => by rw [(h.owed ho).2] at hflag; cases hflag
      exact h.goto hno (fun _ => rfl) (h.oldmask (by rw [hpc]; decide)) (fun _ => by rw [hpc]; rfl)
        (by decide) (by decide)
    · rw [if_neg hflag]
      exact h.wait (by rw [hpc]; rfl) rfl
  | suspend =>
    simp only [hpc, Option.some.injEq] at hs
    subst hs
    exact h.wait (by rw [hpc]; rfl) rfl
  | suspended =>
    simp only [hpc] at hs
    cases hs
  | clear =>
    simp only [hpc, Option.some.injEq] at hs
    subst hs
    have hno := h.not_owed (by rw [hpc]; rfl)
    have hcleared : Inv mask n { s with sigflag := false } :=
      { h with
        owed := fun ho => absurd ho hno
        flag := fun hf => by cases hf }
    exact hcleared.goto hno (fun hf => by cases hf) (h.oldmask (by rw [hpc]; decide))
      (fun _ => by rw [hpc]; rfl) (by decide) (by decide)
  | restore =>
    simp only [hpc, Option.some.injEq] at hs
    subst hs
    have hno := h.not_owed (by rw [hpc]; rfl)
    have hflag := h.sigflag_eq (by rw [hpc]; rfl) (by rw [hpc]; decide)
    have hold := h.oldmask (by rw [hpc]; decide)
    exact { h with
      counted := fun hc => by cases hc
      owed := fun ho => absurd ho hno
      flag := fun hf => by rw [hflag] at hf; cases hf
      start := fun hc => by cases hc
      oldmask := fun _ => hold
      accept := by
        intro _
        have hone := h.counted (by rw [hpc]; rfl)
        simp only [hold]
        cases mask with
        | true => exact .inl rfl
        | false => exact .inr ⟨rfl, hone⟩
      blocked := fun hc => by cases hc }
  | exited =>
    simp only [hpc] at hs
    cases hs

/-- A child does something for the last time. -/
theorem Inv.child (h : Inv mask n s) {k : ℕ} (hk : s.child k = .running) {c : Child}
    (hc : c ≠ .running) (pending : Bool) :
    Inv mask n { s with child := Function.update s.child k c, pending } := by
  have hnone : ∀ i, Function.update s.child k c i ≠ .running := by
    intro i hi
    by_cases hik : i = k
    · rw [hik, Function.update_self] at hi
      exact hc hi
    · rw [Function.update_of_ne hik] at hi
      exact hik ((h.running i hi).trans (h.running k hk).symm)
  have hwait := h.owed (.inr ⟨k, hk⟩)
  exact { h with
    running := fun i hi => absurd hi (hnone i)
    once := fun _ i => hnone i
    owed := fun _ => hwait }

/-- The handler runs. -/
theorem Inv.sigUsr (h : Inv mask n s) (hpending : s.pending = true) : Inv mask n (sigUsr s) := by
  have hwait := (h.owed (.inl hpending)).1
  have hwait' : (Sock.sigUsr s).pc.waiting = true := by
    unfold Sock.sigUsr
    dsimp only
    split
    · rfl
    · exact hwait
  have hpc := h.wait hwait hwait'
  exact { hpc with
    once := fun hp => by cases hp
    owed := by
      rintro (hp | ⟨k, hk⟩)
      · cases hp
      · exact absurd hk (h.once hpending k)
    flag := fun _ => .inl hwait' }

theorem Inv.step {a : Act} (h : Inv mask n s) (hs : step s a = some s') : Inv mask n s' := by
  obtain hs | ⟨hpc, rfl⟩ | ⟨k, c, pending, hk, hc, rfl⟩ | ⟨hd, rfl⟩ := step_cases hs
  · exact h.parent hs
  · have hwait : s.pc.waiting = false := by rcases hpc with hpc | hpc <;> rw [hpc] <;> rfl
    have hflag := h.sigflag_eq hwait (by rcases hpc with hpc | hpc <;> rw [hpc] <;> decide)
    refine h.goto (h.not_owed hwait) ?_ (h.oldmask ?_) (fun hc => by cases hc) (by decide)
      (by decide)
    · intro hf
      rw [hflag] at hf
      cases hf
    · rcases hpc with hpc | hpc <;> rw [hpc] <;> decide
  · exact h.child hk hc pending
  · exact h.sigUsr hd.1

end Step

theorem inv_of_reachable {mask : Bool} {n : ℕ} {s : Sys} (h : Reachable step (init mask n) s) :
    Inv mask n s :=
  exec_invariant (fun _ _ _ hI hs => hI.step hs) (inv_init mask n) h

/-! ### Lost signals -/

/-- **A parent that has lost its signal stays suspended**: no other signal is on its way. -/
theorem lost_forever {mask : Bool} {n : ℕ} {s t : Sys} (hs : Reachable step (init mask n) s)
    (hlost : s.Lost) (ht : Reachable step s t) : t.pc = .suspended := by
  have hflag : Inv mask n t ∧ t.pc = .suspended ∧ t.sigflag = true := by
    refine exec_invariant (I := fun t => Inv mask n t ∧ t.pc = .suspended ∧ t.sigflag = true) ?_
      ⟨inv_of_reachable hs, hlost.1, hlost.2.2⟩ ht
    rintro t a t' ⟨hinv, hpc, hflag⟩ hstep
    have hno : ¬ t.Owed := fun ho => by rw [(hinv.owed ho).2] at hflag; cases hflag
    refine ⟨hinv.step hstep, ?_⟩
    obtain hs | ⟨hacc, -⟩ | ⟨k, c, pending, hk, -⟩ | ⟨hd, -⟩ := step_cases hstep
    · simp only [parent, hpc] at hs
      cases hs
    · rw [hpc] at hacc
      rcases hacc with hacc | hacc <;> cases hacc
    · exact absurd (.inr ⟨k, hk⟩) hno
    · exact absurd (.inl hd.1) hno
  exact hflag.2.1

/-- While the signal is blocked the handler runs in `sigsuspend` only, and `sigflag` is
tested next. -/
def Tested (s : Sys) : Prop := s.sigflag = true → s.pc = .test ∨ s.pc = .clear

theorem tested_step {mask : Bool} {n : ℕ} (hmask : mask = true ∨ n ≤ 1) {s s' : Sys} {a : Act}
    (hinv : Inv mask n s) (h : Tested s) (hs : step s a = some s') : Tested s' := by
  intro hflag'
  obtain hs | ⟨hpc, rfl⟩ | ⟨k, c, pending, -, -, rfl⟩ | ⟨⟨hpending, hd⟩, rfl⟩ := step_cases hs
  · simp only [parent] at hs
    cases hpc : s.pc with
    | test =>
      simp only [hpc, Option.some.injEq] at hs
      subst hs
      exact .inr (if_pos hflag')
    | clear =>
      simp only [hpc, Option.some.injEq] at hs
      subst hs
      cases hflag'
    | accept =>
      simp only [hpc] at hs
      split at hs
      · cases hs
      · cases hs
        exact absurd (h hflag') (by rw [hpc]; decide)
    | suspended =>
      simp only [hpc] at hs
      cases hs
    | exited =>
      simp only [hpc] at hs
      cases hs
    | _ =>
      -- where `sigflag` is left alone, it is not set
      simp only [hpc, Option.some.injEq] at hs
      subst hs
      exact absurd (h hflag') (by rw [hpc]; decide)
  · exact absurd (h hflag') (by rcases hpc with hpc | hpc <;> rw [hpc] <;> decide)
  · exact h hflag'
  · obtain hpc | hunblocked := hd
    · exact .inl (if_pos hpc)
    · -- the signal is not blocked, so that this is not the first connection
      have hserving := Pc.serving_of_waiting (hinv.owed (.inl hpending)).1
      have htotal := hinv.total
      rcases hinv.blocked hserving with hblocked | ⟨hfalse, htwo⟩
      · rw [hblocked] at hunblocked
        cases hunblocked
      · rcases hmask with htrue | hle
        · rw [htrue] at hfalse
          cases hfalse
        · omega

/-- Two connections: the signal of the first child wakes the parent, and that of the second
one arrives before the parent suspends itself. -/
def lossyRun : List Act :=
  [.parent, .parent, .parent, .parent, .parent, .tell 1, .deliver, .parent, .parent, .parent,
    .parent, .parent, .parent, .tell 2, .deliver, .parent]

theorem lossyRun_lost (n : ℕ) : ∃ s, exec step (init false (n + 2)) lossyRun = some s ∧ s.Lost := by
  have hrun : (exec step (init false (n + 2)) lossyRun).map
      (fun s => (s.pc, s.child s.conns, s.sigflag)) = some (.suspended, .told, true) := rfl
  obtain ⟨s, hs, heq⟩ := Option.map_eq_some_iff.mp hrun
  simp only [Prod.mk.injEq] at heq
  exact ⟨s, hs, heq⟩

/-- **When no signal is lost**: exactly if `SIGUSR2` was blocked already when the server was
started, or if there are not two connections. -/
theorem never_lost_iff (mask : Bool) (n : ℕ) :
    (∀ s, Reachable step (init mask n) s → ¬ s.Lost) ↔ mask = true ∨ n ≤ 1 := by
  constructor
  · intro hnever
    by_contra hnot
    obtain ⟨hmask, hn⟩ := not_or.mp hnot
    obtain ⟨m, rfl⟩ : ∃ m, n = m + 2 := ⟨n - 2, by omega⟩
    rw [Bool.not_eq_true] at hmask
    subst hmask
    obtain ⟨s, hs, hlost⟩ := lossyRun_lost m
    exact hnever s ⟨lossyRun, hs⟩ hlost
  · rintro hmask s hs ⟨hpc, -, hflag⟩
    have htested : Inv mask n s ∧ Tested s := by
      refine exec_invariant (I := fun s => Inv mask n s ∧ Tested s) ?_
        ⟨inv_init mask n, fun h => by cases h⟩ hs
      rintro t a t' ⟨hinv, htested⟩ hstep
      exact ⟨hinv.step hstep, tested_step hmask hinv htested hstep⟩
    exact absurd (htested.2 hflag) (by rw [hpc]; decide)

/-- **The signal of the second child is lost**: `WAIT_CHILD` has restored the mask of the
start, the handler runs between the test of `sigflag` and `sigsuspend`, and the parent
suspends itself with `sigflag` set. -/
theorem second_connection_lost : ∃ s, exec step (init false 2) lossyRun = some s ∧
    s.conns = 2 ∧ s.pc = .suspended ∧ s.child 2 = .told ∧ s.sigflag = true := by
  have hrun : (exec step (init false 2) lossyRun).map
      (fun s => (s.conns, s.pc, s.child 2, s.sigflag)) = some (2, .suspended, .told, true) := rfl
  obtain ⟨s, hs, heq⟩ := Option.map_eq_some_iff.mp hrun
  simp only [Prod.mk.injEq] at heq
  exact ⟨s, hs, heq⟩

end TcpIp.Sock
