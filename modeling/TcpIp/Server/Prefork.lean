import TcpIp.Lib.Mutex
import TcpIp.Lib.Run

/-!
# Children that accept for themselves

The children of `serv02.c`, `serv03.c` and `serv04.c` and the threads of `serv07.c` all accept from
the same listening socket.  In `serv02.c` they are all in `accept` at once; in the others a lock is
held around it, a lock on a file, a mutex in shared memory, or a mutex of the process.

A child may go at any point: `accept` fails, a client asks for something `web_child` does not have,
or it is killed.  The kernel gives up the lock on a file when its holder exits, but nobody gives up
a mutex.  A thread takes all other threads with it.

## Main definitions

* `Locking` — what is around `accept`.
* `Sys`, `Act`, `step`, `init` — the children and the listening socket.

## Main results

* `accept_unique` — with a lock no two children are in `accept`.
* `accepts_iff` — **when another connection can still be accepted**: when a child is left, and no
  child has gone with the mutex in shared memory locked.
-/

namespace TcpIp.Prefork

open Run Mutex

/-! ### The children -/

inductive Locking where
  /-- `child02.c` -/
  | unlocked
  /-- `child03.c` with `lock_fcntl.c` -/
  | fcntl
  /-- `child04.c` with `lock_pthread.c` -/
  | mutex
  /-- `pthread07.c` -/
  | threads
  deriving DecidableEq, Repr

/-- Where a child is in `child_main`, or a thread in `thread_main`. -/
inductive Pc where
  /-- In `my_lock_wait`. -/
  | lock
  | accept
  /-- About to call `my_lock_release`. -/
  | release (connfd : ℕ)
  /-- In `web_child`. -/
  | serve (connfd : ℕ)
  | close (connfd : ℕ)
  /-- It has exited, with the lock held or not. -/
  | dead (held : Bool)
  deriving DecidableEq, Repr

structure Sys where
  pcs : ℕ → Pc
  /-- Who holds the lock. -/
  lock : Option ℕ
  /-- The connections that have not been accepted. -/
  backlog : List ℕ
  /-- Who has accepted which connection. -/
  accepted : List (ℕ × ℕ)

inductive Act where
  /-- A connection comes in. -/
  | arrive (connfd : ℕ)
  /-- The next step of a child, other than the following ones. -/
  | run (i : ℕ)
  /-- `fcntl` is interrupted and called again. -/
  | interrupted (i : ℕ)
  | accept (i : ℕ)
  /-- `web_child` returns. -/
  | served (i : ℕ)
  /-- A child exits. -/
  | die (i : ℕ)
  deriving DecidableEq, Repr

variable (k : Locking) (n : ℕ)

/-- The top of the loop. -/
def Locking.top : Locking → Pc
  | .unlocked => .accept
  | _ => .lock

/-- Behind `accept`. -/
def Locking.accepted (connfd : ℕ) : Locking → Pc
  | .unlocked => .serve connfd
  | _ => .release connfd

def Sys.set (s : Sys) (i : ℕ) (pc : Pc) : Sys := { s with pcs := Function.update s.pcs i pc }

def Pc.alive : Pc → Bool
  | .dead _ => false
  | _ => true

/-- A child exits, and gives up the lock or not. -/
def Sys.die (s : Sys) (i : ℕ) : Locking → Sys
  | .unlocked => s.set i (.dead false)
  | .fcntl => { s.set i (.dead false) with lock := if s.lock = some i then none else s.lock }
  | .mutex => s.set i (.dead (s.lock == some i))
  | .threads => { s with pcs := fun _ => .dead false, lock := none }

def step (s : Sys) : Act → Option Sys
  | .arrive connfd => some { s with backlog := s.backlog ++ [connfd] }
  | .run i =>
    if i < n then
      match s.pcs i with
      | .lock => if s.lock = none then some { s.set i .accept with lock := some i } else none
      | .release connfd => some { s.set i (.serve connfd) with lock := none }
      | .close _ => some (s.set i k.top)
      | _ => none
    else none
  | .interrupted i => if i < n ∧ s.pcs i = .lock ∧ k = .fcntl then some s else none
  | .accept i =>
    if i < n ∧ s.pcs i = .accept then
      match s.backlog with
      | [] => none
      | connfd :: backlog =>
        some { s.set i (k.accepted connfd) with
          backlog := backlog, accepted := s.accepted ++ [(i, connfd)] }
    else none
  | .served i =>
    if i < n then
      match s.pcs i with
      | .serve connfd => some (s.set i (.close connfd))
      | _ => none
    else none
  | .die i => if i < n ∧ (s.pcs i).alive then some (s.die i k) else none

/-- The children when they have been made. -/
def init : Sys := ⟨fun _ => k.top, none, [], []⟩

/-! ### Who holds the lock -/

section Holding

variable {k n} {s s' : Sys} {i : ℕ} {a : Act}

/-- The lock is held here. -/
def Pc.inside : Pc → Bool
  | .accept | .release _ | .dead true => true
  | _ => false

structure Inv (k : Locking) (n : ℕ) (s : Sys) : Prop where
  guards : k ≠ .unlocked → Guards s.lock fun i => (s.pcs i).inside
  /-- There are no others. -/
  bound : k ≠ .unlocked → ∀ i, (s.pcs i).inside = true → i < n
  /-- Where there is no lock nobody is about to lock or to unlock it. -/
  free : k = .unlocked → ∀ i, s.pcs i ≠ .lock ∧ ∀ connfd, s.pcs i ≠ .release connfd
  stale : ∀ i, s.pcs i = .dead true → k = .mutex

@[simp] theorem pcs_set_self (s : Sys) (i : ℕ) (pc : Pc) : (s.set i pc).pcs i = pc := by
  simp [Sys.set]

theorem pcs_set_of_ne {j : ℕ} (s : Sys) (pc : Pc) (h : j ≠ i) : (s.set i pc).pcs j = s.pcs j := by
  simp [Sys.set, h]

theorem inside_set (s : Sys) (i : ℕ) (pc : Pc) :
    (fun j => ((s.set i pc).pcs j).inside) =
      Function.update (fun j => (s.pcs j).inside) i pc.inside := by
  funext j
  by_cases h : j = i
  · subst h
    rw [pcs_set_self, Function.update_self]
  · rw [pcs_set_of_ne s pc h, Function.update_of_ne h]

theorem inside_top (hk : k ≠ .unlocked) : k.top.inside = false := by
  cases k <;> first | rfl | exact absurd rfl hk

theorem inv_init : Inv k n (init k) where
  guards := fun hk i => by
    have hin : ((init k).pcs i).inside = false := inside_top hk
    simp only [hin]
    simp [init]
  bound := fun hk i hin => by
    have hout : ((init k).pcs i).inside = false := inside_top hk
    rw [hout] at hin
    cases hin
  free := by
    rintro rfl i
    simp [init, Locking.top]
  stale := fun i hi => by
    cases k <;> cases hi

/-- A child goes to another place. -/
theorem Inv.set (h : Inv k n s) {x : Pc} {m : Option ℕ} {backlog : List ℕ}
    {accepted : List (ℕ × ℕ)} (hi : i < n)
    (hguards : k ≠ .unlocked → Guards m (Function.update (fun j => (s.pcs j).inside) i x.inside))
    (hfree : k = .unlocked → x ≠ .lock ∧ ∀ connfd, x ≠ .release connfd)
    (hstale : x = .dead true → k = .mutex) :
    Inv k n ⟨(s.set i x).pcs, m, backlog, accepted⟩ where
  guards := fun hk => by
    have hg := hguards hk
    rw [← inside_set] at hg
    exact hg
  bound := fun hk j hj => by
    by_cases hji : j = i
    · rwa [hji]
    · exact h.bound hk j (by simpa [pcs_set_of_ne s x hji] using hj)
  free := fun hk j => by
    by_cases hj : j = i
    · subst hj
      simpa using hfree hk
    · simpa [pcs_set_of_ne s x hj] using h.free hk j
  stale := fun j hj => by
    by_cases hji : j = i
    · subst hji
      exact hstale (by simpa using hj)
    · exact h.stale j (by simpa [pcs_set_of_ne s x hji] using hj)

/-- It is inside as before, or outside as before. -/
theorem Inv.keep (h : Inv k n s) {x : Pc} (hx : x.inside = (s.pcs i).inside) (hk : k ≠ .unlocked) :
    Guards s.lock (Function.update (fun j => (s.pcs j).inside) i x.inside) := by
  rw [hx, Function.update_eq_self]
  exact h.guards hk

theorem Inv.die (h : Inv k n s) (hi : i < n) : Inv k n (s.die i k) := by
  cases k with
  | unlocked =>
    exact h.set hi (fun hk => absurd rfl hk) (fun _ => by simp) (by simp)
  | fcntl =>
    refine h.set hi (fun hk => ?_) (by simp) (by simp)
    have hg := h.guards hk
    split
    · next hlock => exact hg.unlock ((hg i).mp hlock)
    · next hlock =>
      have hout : (s.pcs i).inside = false := by
        by_contra hin
        exact hlock ((hg i).mpr (by simpa using hin))
      exact h.keep (x := .dead false) hout.symm hk
  | mutex =>
    refine h.set (m := s.lock) hi (fun hk => ?_) (by simp) fun _ => rfl
    have hg := h.guards hk
    refine h.keep (x := .dead (s.lock == some i)) ?_ hk
    cases hin : (s.pcs i).inside with
    | true =>
      rw [(hg i).mpr hin]
      simp [Pc.inside]
    | false =>
      have hne : s.lock ≠ some i := fun hlock => by
        have hin' : (s.pcs i).inside = true := (hg i).mp hlock
        rw [hin] at hin'
        cases hin'
      simp [hne, Pc.inside]
  | threads => constructor <;> simp [Sys.die, Guards, Pc.inside]

theorem Inv.step (h : Inv k n s) (hs : Prefork.step k n s a = some s') : Inv k n s' := by
  cases a with
  | arrive connfd =>
    obtain rfl := Option.some.inj hs
    exact ⟨h.guards, h.bound, h.free, h.stale⟩
  | run i =>
    obtain ⟨hi, hs⟩ := Option.ite_none_right_eq_some.mp hs
    split at hs
    · next hpc =>
      obtain ⟨hlock, rfl⟩ := Option.ite_some_none_eq_some.mp hs
      refine h.set hi (fun hk => ?_) (fun hk => absurd hpc (h.free hk i).1) (by simp)
      have hg := h.guards hk
      rw [hlock] at hg
      exact hg.lock i
    · next connfd hpc =>
      obtain rfl := Option.some.inj hs
      refine h.set hi (fun hk => ?_) (fun hk => absurd hpc ((h.free hk i).2 connfd)) (by simp)
      exact (h.guards hk).unlock (by rw [hpc]; rfl)
    · next connfd hpc =>
      obtain rfl := Option.some.inj hs
      refine h.set hi (fun hk => h.keep ?_ hk) ?_ ?_
      · rw [inside_top hk, hpc]
        rfl
      · rintro rfl
        simp [Locking.top]
      · cases k <;> simp [Locking.top]
    · cases hs
  | interrupted i =>
    obtain ⟨-, rfl⟩ := Option.ite_some_none_eq_some.mp hs
    exact h
  | accept i =>
    obtain ⟨⟨hi, hpc⟩, hs⟩ := Option.ite_none_right_eq_some.mp hs
    split at hs
    · cases hs
    · next connfd backlog _ =>
      obtain rfl := Option.some.inj hs
      refine h.set hi (fun hk => h.keep ?_ hk) ?_ ?_
      · rw [hpc]
        cases k <;> first | rfl | exact absurd rfl hk
      · rintro rfl
        simp [Locking.accepted]
      · cases k <;> simp [Locking.accepted]
  | served i =>
    obtain ⟨hi, hs⟩ := Option.ite_none_right_eq_some.mp hs
    split at hs
    · next connfd hpc =>
      obtain rfl := Option.some.inj hs
      exact h.set (m := s.lock) hi (fun hk => h.keep (by rw [hpc]; rfl) hk)
        (fun _ => by simp) (by simp)
    · cases hs
  | die i =>
    obtain ⟨⟨hi, -⟩, rfl⟩ := Option.ite_some_none_eq_some.mp hs
    exact h.die hi

theorem inv_reachable (hs : Reachable (Prefork.step k n) (init k) s) : Inv k n s :=
  exec_invariant (fun _ _ _ h hs => h.step hs) inv_init hs

end Holding

/-- **With a lock no two children are in `accept`.** -/
theorem accept_unique (s : Sys) {i j : ℕ} (hk : k ≠ .unlocked)
    (hs : Reachable (Prefork.step k n) (init k) s) (hi : s.pcs i = .accept)
    (hj : s.pcs j = .accept) : i = j :=
  ((inv_reachable hs).guards hk).unique (by rw [hi]; rfl) (by rw [hj]; rfl)

theorem accept_unique_first : ∃ s, exec (step .fcntl 2) (init .fcntl) [.run 0] = some s ∧
    s.pcs 0 = .accept ∧ ∀ j, s.pcs j = .accept → 0 = j :=
  ⟨_, rfl, rfl, fun _ => accept_unique .fcntl 2 _ (by decide) ⟨[.run 0], rfl⟩ rfl⟩

/-! ### Whether another connection can be accepted -/

section Accepting

variable {k n} {s s' : Sys} {i : ℕ} {a : Act}

/-- No child is left, or one has gone with the lock held. -/
def Stuck (n : ℕ) (s : Sys) : Prop := (∀ i < n, (s.pcs i).alive = false) ∨ ∃ i, s.pcs i = .dead true

/-- Some run leads to another connection that is accepted. -/
def CanAccept (k : Locking) (n : ℕ) (s : Sys) : Prop :=
  ∃ s', Reachable (Prefork.step k n) s s' ∧ s.accepted.length < s'.accepted.length

/-- Nobody is in `accept` then. -/
theorem Stuck.not_accept (h : Inv k n s) (hstuck : Stuck n s) (hi : i < n) : s.pcs i ≠ .accept := by
  intro hpc
  rcases hstuck with hdead | ⟨j, hj⟩
  · have := hdead i hi
    rw [hpc] at this
    cases this
  · have hk : k ≠ .unlocked := by rw [h.stale j hj]; nofun
    have hij := (h.guards hk).unique (i := i) (j := j) (by rw [hpc]; rfl) (by rw [hj]; rfl)
    rw [hij, hj] at hpc
    cases hpc

/-- What a step does to the children. -/
theorem step_pcs (hs : Prefork.step k n s a = some s') :
    (s'.pcs = s.pcs ∧ s'.accepted = s.accepted) ∨
    (∃ j < n, (s.pcs j).alive = true ∧ (∃ x, s'.pcs = (s.set j x).pcs) ∧
      (s'.accepted = s.accepted ∨ s.pcs j = .accept)) ∨
    ((∀ j, s'.pcs j = .dead false) ∧ s'.accepted = s.accepted) := by
  cases a with
  | arrive connfd =>
    obtain rfl := Option.some.inj hs
    exact .inl ⟨rfl, rfl⟩
  | interrupted i =>
    obtain ⟨-, rfl⟩ := Option.ite_some_none_eq_some.mp hs
    exact .inl ⟨rfl, rfl⟩
  | run i =>
    obtain ⟨hi, hs⟩ := Option.ite_none_right_eq_some.mp hs
    split at hs
    · next hpc =>
      obtain ⟨-, rfl⟩ := Option.ite_some_none_eq_some.mp hs
      exact .inr (.inl ⟨i, hi, by rw [hpc]; rfl, ⟨_, rfl⟩, .inl rfl⟩)
    · next hpc =>
      obtain rfl := Option.some.inj hs
      exact .inr (.inl ⟨i, hi, by rw [hpc]; rfl, ⟨_, rfl⟩, .inl rfl⟩)
    · next hpc =>
      obtain rfl := Option.some.inj hs
      exact .inr (.inl ⟨i, hi, by rw [hpc]; rfl, ⟨_, rfl⟩, .inl rfl⟩)
    · cases hs
  | accept i =>
    obtain ⟨⟨hi, hpc⟩, hs⟩ := Option.ite_none_right_eq_some.mp hs
    split at hs
    · cases hs
    · obtain rfl := Option.some.inj hs
      exact .inr (.inl ⟨i, hi, by rw [hpc]; rfl, ⟨_, rfl⟩, .inr hpc⟩)
  | served i =>
    obtain ⟨hi, hs⟩ := Option.ite_none_right_eq_some.mp hs
    split at hs
    · next hpc =>
      obtain rfl := Option.some.inj hs
      exact .inr (.inl ⟨i, hi, by rw [hpc]; rfl, ⟨_, rfl⟩, .inl rfl⟩)
    · cases hs
  | die i =>
    obtain ⟨⟨hi, halive⟩, rfl⟩ := Option.ite_some_none_eq_some.mp hs
    cases k with
    | threads => exact .inr (.inr ⟨fun _ => rfl, rfl⟩)
    | unlocked | fcntl | mutex => exact .inr (.inl ⟨i, hi, halive, ⟨_, rfl⟩, .inl rfl⟩)

theorem Stuck.step (h : Inv k n s) (hstuck : Stuck n s) (hs : Prefork.step k n s a = some s') :
    Stuck n s' ∧ s'.accepted = s.accepted := by
  rcases step_pcs hs with ⟨hpcs, haccepted⟩ | ⟨j, hj, halive, ⟨x, hpcs⟩, haccepted⟩ |
    ⟨hdead, haccepted⟩
  · refine ⟨?_, haccepted⟩
    rw [Stuck, hpcs]
    exact hstuck
  · refine ⟨?_, haccepted.resolve_right (hstuck.not_accept h hj)⟩
    rcases hstuck with hdead | ⟨i, hi⟩
    · rw [hdead j hj] at halive
      cases halive
    · have hne : i ≠ j := by
        rintro rfl
        rw [hi] at halive
        cases halive
      exact .inr ⟨i, by rw [hpcs, pcs_set_of_ne s x hne, hi]⟩
  · exact ⟨.inl fun j _ => by rw [hdead j]; rfl, haccepted⟩

theorem Stuck.not_canAccept (h : Inv k n s) (hstuck : Stuck n s) : ¬ CanAccept k n s := by
  rintro ⟨s', hs', hlt⟩
  have hkept : Inv k n s' ∧ Stuck n s' ∧ s'.accepted = s.accepted :=
    exec_invariant (I := fun t => Inv k n t ∧ Stuck n t ∧ t.accepted = s.accepted)
      (fun t b t' ⟨hI, hst, hacc⟩ ht => by
        obtain ⟨hst', hacc'⟩ := hst.step hI ht
        exact ⟨hI.step ht, hst', hacc'.trans hacc⟩) ⟨h, hstuck, rfl⟩ hs'
  rw [hkept.2.2] at hlt
  exact Nat.lt_irrefl _ hlt

/-- Steps that accept nothing may come first. -/
theorem CanAccept.of_step (hs : Prefork.step k n s a = some s')
    (haccepted : s'.accepted = s.accepted) (h : CanAccept k n s') : CanAccept k n s := by
  obtain ⟨t, ⟨as, has⟩, hlt⟩ := h
  rw [haccepted] at hlt
  exact ⟨t, ⟨a :: as, exec_cons_eq_some.mpr ⟨s', hs, has⟩⟩, hlt⟩

/-- A child that is in `accept` gets the next connection. -/
theorem canAccept_of_accept (hi : i < n) (hpc : s.pcs i = .accept) : CanAccept k n s := by
  refine CanAccept.of_step (a := .arrive 0) rfl rfl ?_
  obtain ⟨connfd, backlog, hbacklog⟩ : ∃ c l, s.backlog ++ [0] = c :: l :=
    List.exists_cons_of_ne_nil (by simp)
  have haccept : Prefork.step k n { s with backlog := s.backlog ++ [0] } (.accept i) =
      some { s.set i (k.accepted connfd) with
        backlog := backlog, accepted := s.accepted ++ [(i, connfd)] } := by
    simp [Prefork.step, hi, hpc, hbacklog, Sys.set]
  exact ⟨_, ⟨[.accept i], exec_cons_eq_some.mpr ⟨_, haccept, rfl⟩⟩, by simp⟩

theorem canAccept_of_top (hi : i < n) (hpc : s.pcs i = k.top)
    (hlock : k ≠ .unlocked → s.lock = none) : CanAccept k n s := by
  by_cases hk : k = .unlocked
  · subst hk
    exact canAccept_of_accept hi hpc
  · have htop : k.top = .lock := by cases k <;> first | rfl | exact absurd rfl hk
    rw [htop] at hpc
    have hrun : Prefork.step k n s (.run i) = some { s.set i .accept with lock := some i } := by
      simp [Prefork.step, hi, hpc, hlock hk]
    exact .of_step hrun rfl (canAccept_of_accept hi (pcs_set_self s i .accept))

/-- A child comes to the top of its loop while the lock is free. -/
theorem canAccept_of_free (h : Inv k n s) (hi : i < n) (halive : (s.pcs i).alive = true)
    (hlock : k ≠ .unlocked → s.lock = none) : CanAccept k n s := by
  have hclose : ∀ {s : Sys} {connfd}, s.pcs i = .close connfd → (k ≠ .unlocked → s.lock = none) →
      CanAccept k n s := by
    intro s connfd hpc hlock
    have hrun : Prefork.step k n s (.run i) = some (s.set i k.top) := by
      simp [Prefork.step, hi, hpc]
    exact .of_step hrun rfl (canAccept_of_top hi (pcs_set_self s i k.top) hlock)
  cases hpc : s.pcs i with
  | dead b =>
    rw [hpc] at halive
    cases halive
  | accept => exact canAccept_of_accept hi hpc
  | lock =>
    by_cases hk : k = .unlocked
    · exact absurd hpc (h.free hk i).1
    · refine canAccept_of_top hi ?_ hlock
      rw [hpc]
      cases k <;> first | rfl | exact absurd rfl hk
  | release connfd =>
    by_cases hk : k = .unlocked
    · exact absurd hpc ((h.free hk i).2 connfd)
    · have hg := h.guards hk
      rw [hlock hk] at hg
      have hout := hg.outside i
      simp only [hpc] at hout
      cases hout
  | serve connfd =>
    have hserved : Prefork.step k n s (.served i) = some (s.set i (.close connfd)) := by
      simp [Prefork.step, hi, hpc]
    exact .of_step hserved rfl (hclose (pcs_set_self s i (.close connfd)) hlock)
  | close connfd => exact hclose hpc hlock

theorem canAccept_of_not_stuck (h : Inv k n s) (hstuck : ¬ Stuck n s) : CanAccept k n s := by
  have hstale : ∀ j, s.pcs j ≠ .dead true := fun j hj => hstuck (.inr ⟨j, hj⟩)
  obtain ⟨i, hi, halive⟩ : ∃ i < n, (s.pcs i).alive = true := by
    by_contra hnone
    refine hstuck (.inl fun i hi => ?_)
    by_contra halive
    exact hnone ⟨i, hi, by simpa using halive⟩
  by_cases hk : k = .unlocked
  · exact canAccept_of_free h hi halive fun hne => absurd hk hne
  cases hlock : s.lock with
  | none => exact canAccept_of_free h hi halive fun _ => hlock
  | some j =>
    -- the holder is in `accept`, or about to release the lock
    have hin : (s.pcs j).inside = true := (h.guards hk j).mp hlock
    have hj := h.bound hk j hin
    cases hpc : s.pcs j with
    | accept => exact canAccept_of_accept hj hpc
    | release connfd =>
      have hrun : Prefork.step k n s (.run j) =
          some { s.set j (.serve connfd) with lock := none } := by
        simp [Prefork.step, hj, hpc]
      refine .of_step hrun rfl (canAccept_of_free (h.step hrun) hj ?_ fun _ => rfl)
      change ((s.set j (.serve connfd)).pcs j).alive = true
      rw [pcs_set_self]
      rfl
    | dead b =>
      cases b with
      | true => exact absurd hpc (hstale j)
      | false =>
        rw [hpc] at hin
        cases hin
    | lock | serve | close =>
      rw [hpc] at hin
      cases hin

end Accepting

/-- **When another connection can still be accepted**: a child is left, and, with the mutex in
shared memory, none has gone with it locked. -/
theorem accepts_iff (s : Sys) (hs : Reachable (step k n) (init k) s) :
    CanAccept k n s ↔
      (∃ i < n, (s.pcs i).alive = true) ∧ (k = .mutex → ∀ i, s.pcs i ≠ .dead true) := by
  have h := inv_reachable hs
  constructor
  · intro haccept
    refine ⟨?_, fun _ i hi => Stuck.not_canAccept h (.inr ⟨i, hi⟩) haccept⟩
    by_contra hnone
    refine Stuck.not_canAccept (n := n) h (.inl fun i hi => ?_) haccept
    by_contra halive
    exact hnone ⟨i, hi, by simpa using halive⟩
  · rintro ⟨⟨i, hi, halive⟩, hstale⟩
    refine canAccept_of_not_stuck h ?_
    rintro (hdead | ⟨j, hj⟩)
    · rw [hdead i hi] at halive
      cases halive
    · exact hstale (h.stale j hj) j hj

/-- One of two children exits from `accept` with the mutex locked, and the other one waits for
ever. -/
theorem accepts_iff_orphan :
    ∃ s, exec (step .mutex 2) (init .mutex) [.run 0, .die 0] = some s ∧
      (s.pcs 1).alive = true ∧ ¬ CanAccept .mutex 2 s :=
  ⟨_, rfl, rfl, fun h => ((accepts_iff .mutex 2 _ ⟨[.run 0, .die 0], rfl⟩).mp h).2 rfl 0 rfl⟩

end TcpIp.Prefork
