import TcpIp.Lib.Mutex
import TcpIp.Lib.Ring
import TcpIp.Lib.Run

/-!
# The queue of connections of the prethreaded server

In `serv08.c` the main thread accepts all connections and puts their descriptors
into the array `clifd`, a circular buffer of `MAXNCLI` cells; the threads of
`pthread08.c` take them out.  Array and indices are protected by `clifd_mutex`, and a
thread that finds the queue empty waits for `clifd_cond`.

The indices are all there is: `iget == iput` is the test for an empty queue in the
threads and the test for an overflow in the main thread.  The overflow is noticed
after the descriptor has been stored, so the queue holds `MAXNCLI - 1` connections at
most, one cell is always free, and nothing is overwritten.

An action is one step of one thread; what a thread does between locking and
unlocking is cut at the points where it decides something.  `accepted` and `taken`
record the order of the connections, and `stored` those that have reached the array.

## Main definitions

* `Sys`, `Act`, `step`, `init` — the system.
* `Queue` — the invariant.

## Main results

* `connections_queued` — connections are taken in the order of their arrival, once each;
  the main thread stops exactly when `MAXNCLI` of them are pending.
-/

namespace TcpIp
namespace Serv08

open Run

/-- `MAXNCLI`. -/
def maxNcli : ℕ := 32

abbrev Fd := ℕ

/-! ### The threads -/

/-- Where the main thread is. -/
inductive MainPc where
  /-- In `Accept`. -/
  | accept
  /-- In `Pthread_mutex_lock`, with a connected descriptor. -/
  | lock (connfd : Fd)
  /-- About to store the descriptor and to advance `iput`. -/
  | store (connfd : Fd)
  /-- About to test `iput == iget`. -/
  | test
  /-- About to call `Pthread_cond_signal`. -/
  | signal
  /-- About to call `Pthread_mutex_unlock`. -/
  | unlock
  /-- In `err_quit`. -/
  | quit
  deriving DecidableEq, Repr

/-- Where a thread of the pool is. -/
inductive WorkerPc where
  /-- In `Pthread_mutex_lock`, the first time or on its way out of
  `Pthread_cond_wait`. -/
  | lock
  /-- About to test `iget == iput`. -/
  | test
  /-- In `Pthread_cond_wait`. -/
  | waiting
  /-- About to take a descriptor and to advance `iget`. -/
  | take
  /-- About to call `Pthread_mutex_unlock`. -/
  | unlock (connfd : Fd)
  /-- Serving a connection. -/
  | serve (connfd : Fd)
  deriving DecidableEq, Repr

/-- The process. -/
structure Sys where
  nthreads : ℕ
  main : MainPc
  workers : ℕ → WorkerPc
  mutex : Option Mutex.Thread
  clifd : ℕ → Fd
  iget : ℕ
  iput : ℕ
  /-- `thread_count`, for each thread. -/
  threadCount : ℕ → ℕ
  /-- The descriptors returned by `Accept`. -/
  accepted : List Fd
  /-- Those that have been stored in `clifd`. -/
  stored : List Fd
  /-- Those that have been taken, and by which thread. -/
  taken : List (ℕ × Fd)

/-- The number of connections in the queue. -/
def Sys.pending (s : Sys) : ℕ := s.stored.length - s.taken.length

inductive Act where
  /-- `Accept` returns. -/
  | accept (connfd : Fd)
  /-- The next step of the main thread. -/
  | main
  /-- `Pthread_cond_signal` wakes this thread, or finds none waiting. -/
  | signal (woken : Option ℕ)
  /-- The next step of a thread. -/
  | worker (i : ℕ)
  /-- A thread leaves `Pthread_cond_wait` without having been woken. -/
  | wake (i : ℕ)
  deriving DecidableEq, Repr

/-! ### The transition system -/

namespace Sys

def setWorker (s : Sys) (i : ℕ) (pc : WorkerPc) : Sys :=
  { s with workers := Function.update s.workers i pc }

/-- The loop of `main`, apart from `Accept` and `Pthread_cond_signal`. -/
def mainStep (s : Sys) : Option Sys :=
  match s.main with
  | .lock connfd =>
    if s.mutex = none then some { s with mutex := some .main, main := .store connfd } else none
  | .store connfd =>
    some { s with
      clifd := Function.update s.clifd s.iput connfd
      iput := Ring.next maxNcli s.iput
      stored := s.stored ++ [connfd]
      main := .test }
  | .test => some { s with main := if s.iput = s.iget then .quit else .signal }
  | .unlock => some { s with mutex := none, main := .accept }
  | _ => none

/-- The loop of `thread_main`. -/
def workerStep (s : Sys) (i : ℕ) : Option Sys :=
  match s.workers i with
  | .lock =>
    if s.mutex = none then some { s.setWorker i .test with mutex := some (.worker i) } else none
  | .test =>
    -- `Pthread_cond_wait` gives up the mutex
    if s.iget = s.iput then some { s.setWorker i .waiting with mutex := none }
    else some (s.setWorker i .take)
  | .waiting => none
  | .take =>
    some { s.setWorker i (.unlock (s.clifd s.iget)) with
      iget := Ring.next maxNcli s.iget
      taken := s.taken ++ [(i, s.clifd s.iget)] }
  | .unlock connfd => some { s.setWorker i (.serve connfd) with mutex := none }
  | .serve _ =>
    some { s.setWorker i .lock with
      threadCount := Function.update s.threadCount i (s.threadCount i + 1) }

end Sys

/-- The transition function. -/
def step (s : Sys) : Act → Option Sys
  | .accept connfd =>
    if s.main = .accept then
      some { s with main := .lock connfd, accepted := s.accepted ++ [connfd] }
    else none
  | .main => s.mainStep
  | .signal none =>
    if s.main = .signal ∧ ∀ i < s.nthreads, s.workers i ≠ .waiting then
      some { s with main := .unlock }
    else none
  | .signal (some i) =>
    if s.main = .signal ∧ i < s.nthreads ∧ s.workers i = .waiting then
      some { s.setWorker i .lock with main := .unlock }
    else none
  | .worker i => if i < s.nthreads then s.workerStep i else none
  | .wake i =>
    if i < s.nthreads ∧ s.workers i = .waiting then some (s.setWorker i .lock) else none

/-- What a step does. -/
inductive Next (s : Sys) : Act → Sys → Prop where
  | accepted {connfd} (hpc : s.main = .accept) :
      Next s (.accept connfd) { s with main := .lock connfd, accepted := s.accepted ++ [connfd] }
  | main {s'} (hs : s.mainStep = some s') : Next s .main s'
  | unheard (hpc : s.main = .signal) : Next s (.signal none) { s with main := .unlock }
  | signaled {i} (hpc : s.main = .signal) (hwait : s.workers i = .waiting) :
      Next s (.signal (some i)) { s.setWorker i .lock with main := .unlock }
  | worker {i s'} (hs : s.workerStep i = some s') : Next s (.worker i) s'
  | woken {i} (hwait : s.workers i = .waiting) : Next s (.wake i) (s.setWorker i .lock)

/-- **There are no other steps.** -/
theorem next_of_step {s s' : Sys} {a : Act} (hs : step s a = some s') : Next s a s' := by
  cases a with
  | accept connfd =>
    simp only [step] at hs
    split at hs <;> cases hs
    next hpc => exact .accepted hpc
  | main => exact .main hs
  | signal woken =>
    cases woken with
    | none =>
      simp only [step] at hs
      split at hs <;> cases hs
      next hguard => exact .unheard hguard.1
    | some i =>
      simp only [step] at hs
      split at hs <;> cases hs
      next hguard => exact .signaled hguard.1 hguard.2.2
  | worker i =>
    simp only [step] at hs
    split at hs
    · exact .worker hs
    · cases hs
  | wake i =>
    simp only [step] at hs
    split at hs <;> cases hs
    next hguard => exact .woken hguard.2

/-- All threads have been created. -/
def init (nthreads : ℕ) : Sys where
  nthreads := nthreads
  main := .accept
  workers := fun _ => .lock
  mutex := none
  clifd := fun _ => 0
  iget := 0
  iput := 0
  threadCount := fun _ => 0
  accepted := []
  stored := []
  taken := []

/-! ### Mutual exclusion -/

/-- The main thread is between locking and unlocking. -/
def MainPc.inside : MainPc → Bool
  | .accept => false
  | .lock _ => false
  | _ => true

/-- The thread is between locking and unlocking. -/
def WorkerPc.inside : WorkerPc → Bool
  | .test => true
  | .take => true
  | .unlock _ => true
  | _ => false

namespace Sys

/-- The mutex does its work. -/
def Exclusive (s : Sys) : Prop :=
  Mutex.Guards s.mutex (Mutex.insideOf s.main.inside (WorkerPc.inside ∘ s.workers))

/-- A step of a thread. -/
theorem Exclusive.of_worker (s : Sys) {s' : Sys} {i : ℕ} {pc : WorkerPc}
    (hmain : s'.main = s.main) (hworkers : s'.workers = Function.update s.workers i pc)
    (h : Mutex.Guards s'.mutex (Mutex.insideOf s.main.inside
      (Function.update (WorkerPc.inside ∘ s.workers) i pc.inside))) :
    s'.Exclusive := by
  rw [Exclusive, hmain, hworkers, Function.comp_update]
  exact h

end Sys

theorem exclusive_mainStep {s s' : Sys} (h : s.Exclusive) (hs : s.mainStep = some s') :
    s'.Exclusive := by
  unfold Sys.Exclusive at h
  unfold Sys.mainStep at hs
  split at hs
  · split at hs
    · next hfree =>
      cases hs
      rw [hfree] at h
      exact h.lockMain
    · cases hs
  · next connfd hpc =>
    cases hs
    rw [hpc] at h
    exact h
  · next hpc =>
    cases hs
    rw [hpc] at h
    unfold Sys.Exclusive
    simp only
    split <;> exact h
  · next hpc =>
    cases hs
    rw [hpc] at h
    exact h.unlockMain
  · cases hs

theorem exclusive_workerStep {s s' : Sys} {i : ℕ} (h : s.Exclusive)
    (hs : s.workerStep i = some s') : s'.Exclusive := by
  unfold Sys.Exclusive at h
  unfold Sys.workerStep at hs
  split at hs
  · split at hs
    · next hfree =>
      cases hs
      rw [hfree] at h
      exact .of_worker s rfl rfl (h.lockWorker i)
    · cases hs
  · next hpc =>
    split at hs
    · cases hs
      exact .of_worker s rfl rfl (h.unlockWorker (by simp [hpc, WorkerPc.inside]))
    · cases hs
      exact .of_worker s rfl rfl (h.stayWorker (by simp [hpc, WorkerPc.inside]))
  · cases hs
  · next hpc =>
    cases hs
    exact .of_worker s rfl rfl (h.stayWorker (by simp [hpc, WorkerPc.inside]))
  · next connfd hpc =>
    cases hs
    exact .of_worker s rfl rfl (h.unlockWorker (by simp [hpc, WorkerPc.inside]))
  · next connfd hpc =>
    cases hs
    exact .of_worker s rfl rfl (h.stayWorker (by simp [hpc, WorkerPc.inside]))

/-- A thread is woken up. -/
theorem Sys.Exclusive.wake {s : Sys} {i : ℕ} (h : s.Exclusive) (hwait : s.workers i = .waiting) :
    (s.setWorker i .lock).Exclusive :=
  .of_worker s rfl rfl (Mutex.Guards.stayWorker h (by simp [hwait, WorkerPc.inside]))

theorem exclusive_step (s : Sys) (a : Act) (s' : Sys) (h : s.Exclusive)
    (hs : step s a = some s') : s'.Exclusive := by
  cases next_of_step hs with
  | accepted hpc =>
    rw [Sys.Exclusive, hpc] at h
    exact h
  | main hs => exact exclusive_mainStep h hs
  | unheard hpc =>
    rw [Sys.Exclusive, hpc] at h
    exact h
  | @signaled i hpc hwait =>
    have hwoken := h.wake hwait
    rw [Sys.Exclusive, show (s.setWorker i .lock).main = .signal from hpc] at hwoken
    exact hwoken
  | worker hs => exact exclusive_workerStep h hs
  | woken hwait => exact h.wake hwait

/-! ### The queue -/

/-- The descriptor the main thread has accepted and not stored yet. -/
def MainPc.inHand : MainPc → List Fd
  | .lock connfd => [connfd]
  | .store connfd => [connfd]
  | _ => []

/-- The room left in the array when `p` connections have been stored and `g` taken.
It is used up between a store and the test that follows. -/
def MainPc.Room (p g : ℕ) : MainPc → Prop
  | .test => g < p ∧ p ≤ g + maxNcli
  | .quit => p = g + maxNcli
  | _ => p < g + maxNcli

/-- The queue and its history. -/
structure Queue (s : Sys) : Prop where
  exclusive : s.Exclusive
  accepted_eq : s.accepted = s.stored ++ s.main.inHand
  taken_eq : s.taken.map Prod.snd = s.stored.take s.taken.length
  taken_le : s.taken.length ≤ s.stored.length
  iput_eq : s.iput = s.stored.length % maxNcli
  iget_eq : s.iget = s.taken.length % maxNcli
  holds : Ring.Holds maxNcli s.clifd s.stored s.taken.length
  room : s.main.Room s.stored.length s.taken.length
  /-- A thread that is about to take a connection finds one. -/
  ready : ∀ i, s.workers i = .take → s.taken.length < s.stored.length

section

variable {s : Sys} {connfd : Fd}

theorem Queue.le_add (h : Queue s) : s.stored.length ≤ s.taken.length + maxNcli := by
  have hroom := h.room
  cases hpc : s.main <;> simp only [hpc, MainPc.Room] at hroom <;> omega

/-- The indices tell an empty and an overfull queue from the others. -/
theorem Queue.iput_eq_iget_iff (h : Queue s) :
    s.iput = s.iget ↔
      s.stored.length = s.taken.length ∨ s.stored.length = s.taken.length + maxNcli := by
  rw [h.iput_eq, h.iget_eq]
  exact Ring.mod_eq_mod_iff h.taken_le h.le_add

/-- No thread of the pool is inside while the main thread is. -/
theorem Queue.worker_outside (h : Queue s) (hmain : s.main.inside = true) (i : ℕ) :
    s.workers i ≠ .take := by
  intro hi
  have hexcl := h.exclusive
  rw [Sys.Exclusive, hmain] at hexcl
  have hout := hexcl.worker_outside i
  simp [hi, WorkerPc.inside] at hout

/-- The main thread and the other threads are outside while one of them is inside. -/
theorem Queue.others_outside (h : Queue s) {i : ℕ} (hi : (s.workers i).inside = true) :
    s.main.inside = false ∧ ∀ j, j ≠ i → s.workers j ≠ .take := by
  refine ⟨h.exclusive.main_outside hi, ?_⟩
  intro j hji hj
  have hin : (WorkerPc.inside ∘ s.workers) j = true := by simp [hj, WorkerPc.inside]
  exact hji (h.exclusive.worker_unique hin hi)

/-- A connection is stored in a free cell. -/
theorem Queue.store (h : Queue s) (hpc : s.main = .store connfd)
    (hexcl : Sys.Exclusive { s with
      clifd := Function.update s.clifd s.iput connfd
      iput := Ring.next maxNcli s.iput
      stored := s.stored ++ [connfd]
      main := .test }) :
    Queue { s with
      clifd := Function.update s.clifd s.iput connfd
      iput := Ring.next maxNcli s.iput
      stored := s.stored ++ [connfd]
      main := .test } := by
  have hroom := h.room
  simp only [hpc, MainPc.Room] at hroom
  have hle := h.taken_le
  refine ⟨hexcl, ?_, ?_, ?_, ?_, h.iget_eq, ?_, ?_, ?_⟩
  · simp [h.accepted_eq, hpc, MainPc.inHand]
  · simp only [h.taken_eq]
    rw [List.take_append_of_le_length hle]
  · simp only [List.length_append, List.length_singleton]
    omega
  · simp only [h.iput_eq, List.length_append, List.length_singleton]
    exact Ring.next_mod (by decide) _
  · simp only [h.iput_eq]
    exact h.holds.put hroom connfd
  · simp only [MainPc.Room, List.length_append, List.length_singleton]
    omega
  · intro i hi
    exact absurd hi (h.worker_outside (by simp [hpc, MainPc.inside]) i)

/-- The test decides whether the queue has overflowed. -/
theorem Queue.test (h : Queue s) (hpc : s.main = .test)
    (hexcl : Sys.Exclusive { s with main := if s.iput = s.iget then .quit else .signal }) :
    Queue { s with main := if s.iput = s.iget then .quit else .signal } := by
  have hroom := h.room
  simp only [hpc, MainPc.Room] at hroom
  have hmeet := h.iput_eq_iget_iff
  refine { h with exclusive := hexcl, accepted_eq := ?_, room := ?_ }
  · simp only [h.accepted_eq, hpc]
    split <;> rfl
  · simp only
    split
    · next heq =>
      simp only [MainPc.Room]
      have := hmeet.mp heq
      omega
    · next hne =>
      simp only [MainPc.Room]
      have : ¬ s.stored.length = s.taken.length + maxNcli :=
        fun hfull => hne (hmeet.mpr (.inr hfull))
      omega

/-- A thread takes the first connection of the queue. -/
theorem Queue.take (h : Queue s) {i : ℕ} (hpc : s.workers i = .take)
    (hexcl : Sys.Exclusive { s.setWorker i (.unlock (s.clifd s.iget)) with
      iget := Ring.next maxNcli s.iget
      taken := s.taken ++ [(i, s.clifd s.iget)] }) :
    Queue { s.setWorker i (.unlock (s.clifd s.iget)) with
      iget := Ring.next maxNcli s.iget
      taken := s.taken ++ [(i, s.clifd s.iget)] } := by
  have hready := h.ready i hpc
  obtain ⟨hmain, hothers⟩ := h.others_outside (i := i) (by simp [hpc, WorkerPc.inside])
  have hfirst := h.holds.get hready
  rw [← h.iget_eq] at hfirst
  refine ⟨hexcl, h.accepted_eq, ?_, ?_, h.iput_eq, ?_, ?_, ?_, ?_⟩
  · simp only [Sys.setWorker, List.map_append, List.map_cons, List.map_nil, h.taken_eq,
      List.length_append, List.length_singleton]
    exact (Ring.take_succ_of_getElem? hfirst).symm
  · simp only [Sys.setWorker, List.length_append, List.length_singleton]
    omega
  · simp only [h.iget_eq, List.length_append, List.length_singleton]
    exact Ring.next_mod (by decide) _
  · simp only [List.length_append, List.length_singleton]
    exact h.holds.drop
  · have hroom := h.room
    simp only [Sys.setWorker, List.length_append, List.length_singleton]
    cases hm : s.main <;>
      simp only [hm, MainPc.Room, MainPc.inside, reduceCtorEq] at hroom hmain ⊢ <;>
      omega
  · intro j hj
    rcases eq_or_ne j i with rfl | hji
    · simp [Sys.setWorker] at hj
    · simp only [Sys.setWorker, Function.update_of_ne hji] at hj
      exact absurd hj (hothers j hji)

/-- A step of the main thread that leaves the queue alone. -/
theorem Queue.setMain (h : Queue s) {old pc : MainPc} {mutex : Option Mutex.Thread}
    {accepted : List Fd} (hpc : s.main = old)
    (hexcl : Sys.Exclusive { s with main := pc, mutex, accepted })
    (haccepted : accepted = s.stored ++ pc.inHand) (hroom : ∀ p g, old.Room p g → pc.Room p g) :
    Queue { s with main := pc, mutex, accepted } := by
  have hold := h.room
  rw [hpc] at hold
  exact { h with exclusive := hexcl, accepted_eq := haccepted, room := hroom _ _ hold }

/-- A step of a thread that leaves the queue alone. -/
theorem Queue.setWorker (h : Queue s) {i : ℕ} {pc : WorkerPc} {mutex : Option Mutex.Thread}
    {threadCount : ℕ → ℕ}
    (hexcl : Sys.Exclusive { s.setWorker i pc with mutex, threadCount })
    (hready : pc = .take → s.taken.length < s.stored.length) :
    Queue { s.setWorker i pc with mutex, threadCount } := by
  refine { h with exclusive := hexcl, ready := ?_ }
  intro j hj
  rcases eq_or_ne j i with rfl | hji
  · exact hready (by simpa [Sys.setWorker] using hj)
  · exact h.ready j (by simpa [Sys.setWorker, Function.update_of_ne hji] using hj)

end

theorem queue_mainStep {s s' : Sys} (h : Queue s) (hs : s.mainStep = some s') : Queue s' := by
  have hexcl := exclusive_mainStep h.exclusive hs
  unfold Sys.mainStep at hs
  split at hs
  · next connfd hpc =>
    split at hs
    · cases hs
      exact h.setMain hpc hexcl (by simp [h.accepted_eq, hpc, MainPc.inHand]) fun _ _ => id
    · cases hs
  · next connfd hpc =>
    cases hs
    exact h.store hpc hexcl
  · next hpc =>
    cases hs
    exact h.test hpc hexcl
  · next hpc =>
    cases hs
    exact h.setMain hpc hexcl (by simp [h.accepted_eq, hpc, MainPc.inHand]) fun _ _ => id
  · cases hs

theorem queue_workerStep {s s' : Sys} {i : ℕ} (h : Queue s) (hs : s.workerStep i = some s') :
    Queue s' := by
  have hexcl := exclusive_workerStep h.exclusive hs
  unfold Sys.workerStep at hs
  split at hs
  · split at hs
    · cases hs
      exact h.setWorker hexcl (by nofun)
    · cases hs
  · next hpc =>
    split at hs
    · cases hs
      exact h.setWorker hexcl (by nofun)
    · next hne =>
      cases hs
      refine h.setWorker hexcl ?_
      intro _
      -- the queue is not empty, and it is not overfull while a thread is inside
      have hmeet := h.iput_eq_iget_iff
      have hle := h.taken_le
      have : ¬ s.stored.length = s.taken.length := fun heq => hne (hmeet.mpr (.inl heq)).symm
      omega
  · cases hs
  · next hpc =>
    cases hs
    exact h.take hpc hexcl
  · cases hs
    exact h.setWorker hexcl (by nofun)
  · cases hs
    exact h.setWorker hexcl (by nofun)

/-- **Every step keeps the queue in order.** -/
theorem queue_step (s : Sys) (a : Act) (s' : Sys) (h : Queue s) (hs : step s a = some s') :
    Queue s' := by
  have hexcl := exclusive_step s a s' h.exclusive hs
  cases next_of_step hs with
  | accepted hpc =>
    exact h.setMain hpc hexcl (by simp [h.accepted_eq, hpc, MainPc.inHand]) fun _ _ => id
  | main hs => exact queue_mainStep h hs
  | unheard hpc =>
    exact h.setMain hpc hexcl (by simp [h.accepted_eq, hpc, MainPc.inHand]) fun _ _ => id
  | @signaled i hpc =>
    have hroom := h.room
    simp only [hpc, MainPc.Room] at hroom
    refine { h with exclusive := hexcl, accepted_eq := ?_, room := hroom, ready := ?_ }
    · simp [Sys.setWorker, h.accepted_eq, hpc, MainPc.inHand]
    · intro j hj
      rcases eq_or_ne j i with rfl | hji
      · simp [Sys.setWorker] at hj
      · exact h.ready j (by simpa [Sys.setWorker, Function.update_of_ne hji] using hj)
  | worker hs => exact queue_workerStep h hs
  | woken => exact h.setWorker hexcl (by nofun)

theorem queue_init (nthreads : ℕ) : Queue (init nthreads) where
  exclusive := by
    intro o
    cases o <;> simp [init, Mutex.insideOf, MainPc.inside, WorkerPc.inside]
  accepted_eq := rfl
  taken_eq := rfl
  taken_le := Nat.le_refl 0
  iput_eq := rfl
  iget_eq := rfl
  holds := Ring.holds_nil _ _ _
  room := by simp [init, MainPc.Room, maxNcli]
  ready := by
    intro i hi
    cases hi

theorem queue_of_reachable {nthreads : ℕ} {s : Sys} (h : Reachable step (init nthreads) s) :
    Queue s :=
  exec_invariant queue_step (queue_init nthreads) h

/-! ### The result -/

/-- The cells of the connections in the queue. -/
def Sys.pendingCells (s : Sys) : List ℕ :=
  (List.range s.pending).map fun j => (s.iget + j) % maxNcli

/-- The cell a connection is stored in is not one of those in use. -/
theorem Queue.iput_not_mem {s : Sys} (h : Queue s) {connfd : Fd} (hpc : s.main = .store connfd) :
    s.iput ∉ s.pendingCells := by
  intro hmem
  obtain ⟨j, hj, heq⟩ := List.mem_map.mp hmem
  have hroom := h.room
  simp only [hpc, MainPc.Room] at hroom
  rw [List.mem_range, Sys.pending] at hj
  rw [h.iput_eq, h.iget_eq, Nat.mod_add_mod] at heq
  exact Ring.mod_ne_mod (g := s.taken.length + j) (by omega) (by omega) heq.symm

/-- **The queue of connections.**  For any number of threads, in every reachable
state: the descriptors taken, in the order in which they are taken, are an initial
part of those accepted; a descriptor is stored in a cell that is not in use; when
nobody holds the mutex the indices are equal exactly if the queue is empty; and the
main thread gives up exactly when the connection it has just stored makes `MAXNCLI`
pending ones. -/
theorem connections_queued (nthreads : ℕ) (s : Sys) (h : Reachable step (init nthreads) s) :
    s.taken.map Prod.snd <+: s.accepted ∧
    (∀ connfd, s.main = .store connfd → s.iput ∉ s.pendingCells) ∧
    (s.mutex = none → (s.iget = s.iput ↔ s.pending = 0)) ∧
    (s.main = .test → ∀ s', step s .main = some s' → (s'.main = .quit ↔ s.pending = maxNcli)) ∧
    (s.main = .quit → s.pending = maxNcli) := by
  have hq := queue_of_reachable h
  have hle := hq.taken_le
  have hroom := hq.room
  refine ⟨?_, fun connfd hpc => hq.iput_not_mem hpc, ?_, ?_, ?_⟩
  · rw [hq.taken_eq, hq.accepted_eq]
    have hstored : s.stored.take s.taken.length <+: s.stored := List.take_prefix _ _
    exact hstored.trans (List.prefix_append _ _)
  · intro hfree
    -- the main thread is outside, so the queue is not overfull
    have hexcl := hq.exclusive
    rw [Sys.Exclusive, hfree] at hexcl
    have hout : s.main.inside = false := hexcl.outside Mutex.Thread.main
    have hless : s.stored.length < s.taken.length + maxNcli := by
      cases hm : s.main <;> simp_all [MainPc.Room, MainPc.inside]
    rw [eq_comm, hq.iput_eq_iget_iff, Sys.pending]
    omega
  · intro hpc s' hs
    simp only [step, Sys.mainStep, hpc, Option.some.injEq] at hs
    subst hs
    simp only [hpc, MainPc.Room] at hroom
    have hmeet := hq.iput_eq_iget_iff
    simp only [Sys.pending]
    split
    · next heq =>
      have := hmeet.mp heq
      simp only [true_iff]
      omega
    · next hne =>
      have : ¬ s.stored.length = s.taken.length + maxNcli :=
        fun hfull => hne (hmeet.mpr (.inr hfull))
      simp only [reduceCtorEq, false_iff]
      omega
  · intro hpc
    simp only [hpc, MainPc.Room] at hroom
    simp only [Sys.pending]
    omega

/-- A thread waits, a connection arrives and wakes it up. -/
def wakeRun : List Act :=
  [.worker 0, .worker 0, .accept 4, .main, .main, .main, .signal (some 0), .main,
   .worker 0, .worker 0, .worker 0, .worker 0]

theorem connections_queued_wakeRun :
    ∃ s, exec step (init 2) wakeRun = some s ∧ s.taken = [(0, 4)] ∧
      s.taken.map Prod.snd <+: s.accepted ∧ (s.iget = s.iput ↔ s.pending = 0) := by
  obtain ⟨s, hs, hfacts⟩ := Option.map_eq_some_iff.mp
    (show (exec step (init 2) wakeRun).map (fun s => (s.taken, s.mutex)) = some ([(0, 4)], none) by
      decide)
  simp only [Prod.mk.injEq] at hfacts
  have hqueue := connections_queued 2 s ⟨wakeRun, hs⟩
  exact ⟨s, hs, hfacts.1, hqueue.1, hqueue.2.2.1 hfacts.2⟩

end Serv08
end TcpIp
