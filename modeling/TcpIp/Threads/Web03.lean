import Mathlib.Data.Int.Notation
import Mathlib.Order.Lattice
import TcpIp.Lib.Mutex
import TcpIp.Lib.Run
import TcpIp.Lib.Table

/-!
# Waiting for any of several threads

`threads/web03.c` reads a number of files, each in a thread of its own, at most
`maxnconn` at a time.  A thread that is done writes `F_DONE` into its entry of `file`,
and then, with `ndone_mutex` locked, increments `ndone` and signals `ndone_cond`.  The
main thread waits for `ndone` to be positive, and with the mutex still locked goes
through the table and joins every thread whose entry has `F_DONE`.

The flag is written before the mutex is locked.  So the main thread may find `F_DONE`
in the entry of a thread that has not been counted, and joins it: it waits for the
thread while the thread waits for the mutex.  This takes a second thread, one that has
been counted, to get the main thread there.

An action is one step of one thread.  What `Read` returns does not matter before the
end of file, and calls that fail end the process; no steps stand for these.

## Main definitions

* `Sys`, `Act`, `step`, `init` — the system.
* `Sys.Deadlocked` — the main thread waits for a thread that needs the mutex.
* `Counters` — the counters agree with the table.

## Main results

* `deadlock_iff` — the program can get there exactly if two threads can exist at a time.
-/

namespace TcpIp
namespace Web03

open Run

/-- `f_flags`. -/
inductive Flags where
  | zero
  | connecting
  | reading
  | done
  | joined
  deriving DecidableEq, Repr

/-- Where the thread of a file is. -/
inductive ThreadPc where
  /-- Not created. -/
  | unborn
  /-- In `Tcp_connect` and `write_get_cmd`. -/
  | connect
  /-- In the loop that reads the reply. -/
  | read
  /-- In `Pthread_mutex_lock`. -/
  | lock
  /-- About to increment `ndone`. -/
  | increment
  /-- About to call `Pthread_cond_signal`. -/
  | signal
  /-- About to call `Pthread_mutex_unlock`. -/
  | unlock
  | returned (fptr : ℕ)
  /-- The main thread has got the return value. -/
  | joined
  deriving DecidableEq, Repr

/-- An entry of `file`, with its thread. -/
structure File where
  fFlags : Flags
  thread : ThreadPc
  deriving DecidableEq, Repr

/-- Where the main thread is. -/
inductive MainPc where
  /-- At the test of the outer loop. -/
  | outer
  /-- At the test of the inner loop. -/
  | inner
  /-- In `Pthread_create`. -/
  | create (i : ℕ)
  /-- In `Pthread_mutex_lock`, or on its way out of `Pthread_cond_wait`. -/
  | lock
  /-- About to test `ndone == 0`. -/
  | test
  /-- In `Pthread_cond_wait`. -/
  | wait
  /-- In the loop over the table. -/
  | scan (i : ℕ)
  | join (i : ℕ)
  /-- About to call `Pthread_mutex_unlock`. -/
  | unlock
  /-- `exit(0)`. -/
  | exit
  /-- `err_quit("nlefttoconn = %d but nothing found")`. -/
  | nothingFound
  /-- `err_quit("file[i] != fptr")`. -/
  | mismatch
  deriving DecidableEq, Repr

structure Sys where
  nfiles : ℕ
  maxnconn : ℤ
  file : ℕ → File
  nconn : ℤ
  nlefttoconn : ℤ
  nlefttoread : ℤ
  ndone : ℤ
  ndoneMutex : Option Mutex.Thread
  main : MainPc

inductive Act where
  /-- The next step of the main thread. -/
  | main
  /-- The next step of the thread of a file. -/
  | thread (i : ℕ)
  /-- The main thread leaves `Pthread_cond_wait` without having been woken. -/
  | wake
  deriving DecidableEq, Repr

/-! ### The transition system -/

/-- `f_flags == 0`. -/
def File.isNew (f : File) : Bool := f.fFlags == .zero

namespace Sys

def setFile (s : Sys) (i : ℕ) (f : File) : Sys := { s with file := Function.update s.file i f }

/-- `main`, from the loop on. -/
def mainStep (s : Sys) : Option Sys :=
  match s.main with
  | .outer => some { s with main := if 0 < s.nlefttoread then .inner else .exit }
  | .inner =>
    if s.nconn < s.maxnconn ∧ 0 < s.nlefttoconn then
      match Table.first File.isNew s.file s.nfiles with
      | none => some { s with main := .nothingFound }
      | some i =>
        some { s.setFile i { s.file i with fFlags := .connecting } with main := .create i }
    else some { s with main := .lock }
  | .create i =>
    some { s.setFile i { s.file i with thread := .connect } with
      nconn := s.nconn + 1
      nlefttoconn := s.nlefttoconn - 1
      main := .inner }
  | .lock =>
    if s.ndoneMutex = none then some { s with ndoneMutex := some .main, main := .test } else none
  | .test =>
    -- `Pthread_cond_wait` gives up the mutex
    if s.ndone = 0 then some { s with ndoneMutex := none, main := .wait }
    else some { s with main := .scan 0 }
  | .scan i =>
    if i < s.nfiles then
      some { s with main := if (s.file i).fFlags = .done then .join i else .scan (i + 1) }
    else some { s with main := .unlock }
  | .join i =>
    match (s.file i).thread with
    | .returned fptr =>
      if i = fptr then
        some { s.setFile fptr ⟨.joined, .joined⟩ with
          ndone := s.ndone - 1
          nconn := s.nconn - 1
          nlefttoread := s.nlefttoread - 1
          main := .scan (i + 1) }
      else some { s with main := .mismatch }
    | _ => none
  | .unlock => some { s with ndoneMutex := none, main := .outer }
  | _ => none

/-- `do_get_read`, for the entry `i`. -/
def threadStep (s : Sys) (i : ℕ) : Option Sys :=
  match (s.file i).thread with
  | .connect => some (s.setFile i ⟨.reading, .read⟩)
  | .read => some (s.setFile i ⟨.done, .lock⟩)
  | .lock =>
    if s.ndoneMutex = none then
      some { s.setFile i { s.file i with thread := .increment } with
        ndoneMutex := some (.worker i) }
    else none
  | .increment =>
    some { s.setFile i { s.file i with thread := .signal } with ndone := s.ndone + 1 }
  | .signal =>
    some { s.setFile i { s.file i with thread := .unlock } with
      main := if s.main = .wait then .lock else s.main }
  | .unlock =>
    some { s.setFile i { s.file i with thread := .returned i } with ndoneMutex := none }
  | _ => none

end Sys

/-- The transition function. -/
def step (s : Sys) : Act → Option Sys
  | .main => s.mainStep
  | .thread i => if i < s.nfiles then s.threadStep i else none
  | .wake => if s.main = .wait then some { s with main := .lock } else none

/-- The state at the first test of the outer loop. -/
def init (nfiles : ℕ) (maxnconn : ℤ) : Sys where
  nfiles := nfiles
  maxnconn := maxnconn
  file := fun _ => ⟨.zero, .unborn⟩
  nconn := 0
  nlefttoconn := nfiles
  nlefttoread := nfiles
  ndone := 0
  ndoneMutex := none
  main := .outer

/-- The thread has still to lock the mutex. -/
def ThreadPc.beforeLock : ThreadPc → Bool
  | .connect => true
  | .read => true
  | .lock => true
  | _ => false

/-- The main thread waits for the end of a thread, with the mutex locked that the
thread has still to lock. -/
def Sys.Deadlocked (s : Sys) : Prop :=
  ∃ i, s.main = .join i ∧ s.ndoneMutex = some .main ∧ (s.file i).thread.beforeLock = true

/-! ### The counters -/

/-- The main thread is between locking and unlocking. -/
def MainPc.inside : MainPc → Bool
  | .test => true
  | .scan _ => true
  | .join _ => true
  | .unlock => true
  | .mismatch => true
  | _ => false

/-- The thread of a file is between locking and unlocking. -/
def File.inside (f : File) : Bool :=
  match f.thread with
  | .increment => true
  | .signal => true
  | .unlock => true
  | _ => false

/-- The thread has been created, and not joined. -/
def File.alive (f : File) : Bool :=
  match f.thread with
  | .unborn => false
  | .joined => false
  | _ => true

/-- The thread has incremented `ndone`, and has not been joined. -/
def File.counted (f : File) : Bool :=
  match f.thread with
  | .signal => true
  | .unlock => true
  | .returned _ => true
  | _ => false

/-- The flags of a file when its thread is there. -/
def ThreadPc.flags : ThreadPc → Flags
  | .unborn => .zero
  | .connect => .connecting
  | .read => .reading
  | .joined => .joined
  | _ => .done

/-- The counters and the mutex agree with the table. -/
structure Counters (s : Sys) : Prop where
  exclusive : Mutex.Guards s.ndoneMutex (Mutex.insideOf s.main.inside (File.inside ∘ s.file))
  flags_eq : ∀ i, s.main ≠ .create i → (s.file i).fFlags = (s.file i).thread.flags
  create_eq : ∀ i, s.main = .create i → i < s.nfiles ∧ s.file i = ⟨.connecting, .unborn⟩ ∧
    s.nconn < s.maxnconn
  join_eq : ∀ i, s.main = .join i → i < s.nfiles ∧ (s.file i).fFlags = .done
  ndone_eq : s.ndone = Table.tally File.counted s.file s.nfiles
  nconn_eq : s.nconn = Table.tally File.alive s.file s.nfiles
  nconn_le : s.nconn ≤ max s.maxnconn 0
  returned_eq : ∀ i fptr, (s.file i).thread = .returned fptr → fptr = i

/-- No thread is inside before the first one is created. -/
theorem exclusive_init : Mutex.Guards none
    (Mutex.insideOf MainPc.outer.inside (File.inside ∘ fun _ => ⟨.zero, .unborn⟩)) := by
  intro t
  cases t <;> simp [Mutex.insideOf, MainPc.inside, File.inside]

theorem counters_init (nfiles : ℕ) (maxnconn : ℤ) : Counters (init nfiles maxnconn) where
  exclusive := exclusive_init
  flags_eq := fun _ _ => rfl
  create_eq := by nofun
  join_eq := by nofun
  ndone_eq := by
    have hnone : Table.tally File.counted (init nfiles maxnconn).file nfiles = 0 :=
      Table.tally_eq_zero_iff.mpr fun _ _ => rfl
    simp only [init] at hnone ⊢
    rw [hnone]
    rfl
  nconn_eq := by
    have hnone : Table.tally File.alive (init nfiles maxnconn).file nfiles = 0 :=
      Table.tally_eq_zero_iff.mpr fun _ _ => rfl
    simp only [init] at hnone ⊢
    rw [hnone]
    rfl
  nconn_le := le_max_right _ _
  returned_eq := by nofun

section

variable {s : Sys}

/-- A step of the main thread that leaves the table alone. -/
theorem Counters.goto (h : Counters s) {main : MainPc} {ndoneMutex : Option Mutex.Thread}
    (hexcl : Mutex.Guards ndoneMutex (Mutex.insideOf main.inside (File.inside ∘ s.file)))
    (hfrom : ∀ i, s.main ≠ .create i) (hcreate : ∀ i, main ≠ .create i)
    (hjoin : ∀ i, main = .join i → i < s.nfiles ∧ (s.file i).fFlags = .done) :
    Counters { s with main, ndoneMutex } :=
  { h with
    exclusive := hexcl
    flags_eq := fun i _ => h.flags_eq i (hfrom i)
    create_eq := fun i hi => absurd hi (hcreate i)
    join_eq := hjoin }

/-- A step that changes the entry of one file.  No other file becomes, or ceases to be,
the one a thread is being created for. -/
theorem Counters.update (h : Counters s) {i : ℕ} {f : File} {main : MainPc}
    {nconn nlefttoconn nlefttoread ndone : ℤ} {ndoneMutex : Option Mutex.Thread} (hi : i < s.nfiles)
    (hexcl : Mutex.Guards ndoneMutex
      (Mutex.insideOf main.inside (Function.update (File.inside ∘ s.file) i f.inside)))
    (hflags : main ≠ .create i → f.fFlags = f.thread.flags)
    (hothers : ∀ j, j ≠ i → main ≠ .create j → s.main ≠ .create j)
    (hcreate : ∀ j, main = .create j → j < s.nfiles ∧
      Function.update s.file i f j = ⟨.connecting, .unborn⟩ ∧ nconn < s.maxnconn)
    (hjoin : ∀ j, main = .join j → j < s.nfiles ∧ (Function.update s.file i f j).fFlags = .done)
    (hreturned : ∀ fptr, f.thread = .returned fptr → fptr = i)
    (hndone : ndone = s.ndone + f.counted.toNat - (s.file i).counted.toNat)
    (hnconn : nconn = s.nconn + f.alive.toNat - (s.file i).alive.toNat)
    (hle : nconn ≤ max s.maxnconn 0) :
    Counters { s.setFile i f with nconn, nlefttoconn, nlefttoread, ndone, main, ndoneMutex } := by
  refine ⟨?_, ?_, hcreate, hjoin, Table.counter_update h.ndone_eq hi hndone,
    Table.counter_update h.nconn_eq hi hnconn, hle, ?_⟩
  · simp only [Sys.setFile, Function.comp_update]
    exact hexcl
  · intro j hj
    simp only [Sys.setFile]
    rcases eq_or_ne j i with rfl | hne
    · rw [Function.update_self]
      exact hflags hj
    · rw [Function.update_of_ne hne]
      exact h.flags_eq j (hothers j hne hj)
  · intro j fptr
    simp only [Sys.setFile]
    rcases eq_or_ne j i with rfl | hne
    · rw [Function.update_self]
      exact hreturned fptr
    · rw [Function.update_of_ne hne]
      exact h.returned_eq j fptr

/-- A step of the thread of a file. -/
theorem Counters.setFile (h : Counters s) {i : ℕ} {f : File} {ndone : ℤ} {main : MainPc}
    {ndoneMutex : Option Mutex.Thread} (hi : i < s.nfiles)
    (hexcl : Mutex.Guards ndoneMutex
      (Mutex.insideOf s.main.inside (Function.update (File.inside ∘ s.file) i f.inside)))
    (hmain : main = s.main ∨ s.main = .wait ∧ main = .lock)
    (hborn : (s.file i).alive = true) (halive : f.alive = true)
    (hflags : f.fFlags = f.thread.flags)
    (hjoin : (s.file i).fFlags = .done → f.fFlags = .done)
    (hreturned : ∀ fptr, f.thread = .returned fptr → fptr = i)
    (hndone : ndone = s.ndone + f.counted.toNat - (s.file i).counted.toNat) :
    Counters { s.setFile i f with ndone, main, ndoneMutex } := by
  have hinside : main.inside = s.main.inside := by
    rcases hmain with rfl | ⟨hwait, rfl⟩
    · rfl
    · rw [hwait]; rfl
  -- the main thread creates and joins the same threads as before
  have hcreate : ∀ j, main = .create j ↔ s.main = .create j := by
    rcases hmain with rfl | ⟨hwait, rfl⟩
    · exact fun _ => Iff.rfl
    · rw [hwait]
      exact fun _ => iff_of_false nofun nofun
  have hjoining : ∀ j, main = .join j → s.main = .join j := by
    rcases hmain with rfl | ⟨-, rfl⟩
    · exact fun _ hj => hj
    · nofun
  refine h.update hi (hinside ▸ hexcl) (fun _ => hflags) ?_ ?_ ?_ hreturned hndone ?_ h.nconn_le
  · exact fun j _ => mt (hcreate j).mpr
  · intro j hj
    obtain ⟨hlt, hfile, hless⟩ := h.create_eq j ((hcreate j).mp hj)
    -- the thread of this file does not exist
    have hne : j ≠ i := by
      rintro rfl
      rw [hfile] at hborn
      cases hborn
    exact ⟨hlt, (Function.update_of_ne hne f s.file).trans hfile, hless⟩
  · intro j hj
    obtain ⟨hlt, hdone⟩ := h.join_eq j (hjoining j hj)
    refine ⟨hlt, ?_⟩
    rcases eq_or_ne j i with rfl | hne
    · rw [Function.update_self]
      exact hjoin hdone
    · rw [Function.update_of_ne hne]
      exact hdone
  · simp only [Sys.setFile, halive, hborn]
    omega

theorem counters_threadStep {s' : Sys} {i : ℕ} (h : Counters s) (hi : i < s.nfiles)
    (hs : s.threadStep i = some s') : Counters s' := by
  have hexcl := h.exclusive
  have hflags : (s.file i).alive = true → (s.file i).fFlags = (s.file i).thread.flags := by
    intro hborn
    refine h.flags_eq i fun hcreate => ?_
    rw [(h.create_eq i hcreate).2.1] at hborn
    cases hborn
  unfold Sys.threadStep at hs
  split at hs
  · next hpc =>
    cases hs
    have hborn : (s.file i).alive = true := by simp only [File.alive, hpc]
    refine h.setFile hi (hexcl.stayWorker ?_) (.inl rfl) hborn rfl rfl ?_ (by nofun) ?_
    · simp only [Function.comp, File.inside, hpc]
    · rw [hflags hborn, hpc]
      nofun
    · simp [File.counted, hpc]
  · next hpc =>
    cases hs
    have hborn : (s.file i).alive = true := by simp only [File.alive, hpc]
    refine h.setFile hi (hexcl.stayWorker ?_) (.inl rfl) hborn rfl rfl (fun _ => rfl) (by nofun) ?_
    · simp only [Function.comp, File.inside, hpc]
    · simp [File.counted, hpc]
  · next hpc =>
    have hborn : (s.file i).alive = true := by simp only [File.alive, hpc]
    have hdone := hflags hborn
    rw [hpc] at hdone
    split at hs
    · next hfree =>
      cases hs
      rw [hfree] at hexcl
      refine h.setFile hi (hexcl.lockWorker i) (.inl rfl) hborn rfl hdone (fun _ => hdone)
        (by nofun) ?_
      simp [Sys.setFile, File.counted, hpc]
    · cases hs
  · next hpc =>
    cases hs
    have hborn : (s.file i).alive = true := by simp only [File.alive, hpc]
    have hdone := hflags hborn
    rw [hpc] at hdone
    refine h.setFile hi (hexcl.stayWorker ?_) (.inl rfl) hborn rfl hdone (fun _ => hdone)
      (by nofun) ?_
    · simp only [Function.comp, File.inside, hpc]
    · simp [File.counted, hpc]
  · next hpc =>
    cases hs
    have hborn : (s.file i).alive = true := by simp only [File.alive, hpc]
    have hdone := hflags hborn
    rw [hpc] at hdone
    refine h.setFile hi (hexcl.stayWorker ?_) ?_ hborn rfl hdone (fun _ => hdone) (by nofun) ?_
    · simp only [Function.comp, File.inside, hpc]
    · split
      · next hwait => exact .inr ⟨hwait, rfl⟩
      · exact .inl rfl
    · simp [Sys.setFile, File.counted, hpc]
  · next hpc =>
    cases hs
    have hborn : (s.file i).alive = true := by simp only [File.alive, hpc]
    have hdone := hflags hborn
    rw [hpc] at hdone
    refine h.setFile hi (hexcl.unlockWorker ?_) (.inl rfl) hborn rfl hdone (fun _ => hdone) ?_ ?_
    · simp only [Function.comp, File.inside, hpc]
    · intro fptr hreturned
      cases hreturned
      rfl
    · simp [Sys.setFile, File.counted, hpc]
  · cases hs

/-- The main thread marks a file for which it will create a thread. -/
theorem Counters.mark (h : Counters s) {i : ℕ} (hpc : s.main = .inner) (hi : i < s.nfiles)
    (hnew : (s.file i).isNew = true) (hless : s.nconn < s.maxnconn) :
    Counters { s.setFile i { s.file i with fFlags := .connecting } with main := .create i } := by
  have hzero : (s.file i).fFlags = .zero := by simpa [File.isNew] using hnew
  have hunborn : (s.file i).thread = .unborn := by
    have hflags := h.flags_eq i (by rw [hpc]; nofun)
    rw [hzero] at hflags
    cases hthread : (s.file i).thread <;> rw [hthread] at hflags <;> first | rfl | cases hflags
  have hexcl := h.exclusive
  rw [hpc] at hexcl
  refine h.update hi (hexcl.stayWorker rfl) (fun hne => absurd rfl hne) ?_ ?_ (by nofun)
    (h.returned_eq i) ?_ ?_ h.nconn_le
  · intro j _ _
    rw [hpc]
    nofun
  · intro j hj
    cases hj
    refine ⟨hi, ?_, hless⟩
    simp only [Function.update_self, hunborn]
  · simp [Sys.setFile, File.counted]
  · simp [Sys.setFile, File.alive]

/-- The main thread creates a thread. -/
theorem Counters.create (h : Counters s) {i : ℕ} (hpc : s.main = .create i) :
    Counters { s.setFile i { s.file i with thread := .connect } with
      nconn := s.nconn + 1
      nlefttoconn := s.nlefttoconn - 1
      main := .inner } := by
  obtain ⟨hi, hfile, hless⟩ := h.create_eq i hpc
  have hexcl := h.exclusive
  rw [hpc] at hexcl
  refine h.update hi (hexcl.stayWorker ?_) ?_ ?_ (by nofun) (by nofun) (by nofun) ?_ ?_ ?_
  · rw [Function.comp_apply, hfile]
    rfl
  · intro _
    rw [hfile]
    rfl
  · intro j hne _
    rw [hpc]
    exact fun heq => hne (MainPc.create.inj heq).symm
  · simp [Sys.setFile, File.counted, hfile]
  · simp [File.alive, hfile]
  · have := le_max_left s.maxnconn 0
    omega

/-- The main thread joins a thread that has returned. -/
theorem Counters.join (h : Counters s) {i : ℕ} (hpc : s.main = .join i)
    (hreturned : (s.file i).thread = .returned i) :
    Counters { s.setFile i ⟨.joined, .joined⟩ with
      ndone := s.ndone - 1
      nconn := s.nconn - 1
      nlefttoread := s.nlefttoread - 1
      main := .scan (i + 1) } := by
  obtain ⟨hi, -⟩ := h.join_eq i hpc
  have hexcl := h.exclusive
  rw [hpc] at hexcl
  have hle := h.nconn_le
  refine h.update hi (hexcl.stayWorker ?_) (fun _ => rfl) ?_ (by nofun) (by nofun) (by nofun) ?_ ?_
    (by omega)
  · simp only [Function.comp_apply, File.inside, hreturned]
  · intro j _ _
    rw [hpc]
    nofun
  · simp [File.counted, hreturned]
  · simp [File.alive, hreturned]

theorem counters_mainStep {s' : Sys} (h : Counters s) (hs : s.mainStep = some s') :
    Counters s' := by
  have hexcl := h.exclusive
  unfold Sys.mainStep at hs
  split at hs
  · next hpc =>
    cases hs
    rw [hpc] at hexcl
    refine h.goto ?_ (by rw [hpc]; nofun) ?_ ?_
    · split <;> exact hexcl
    · split <;> nofun
    · split <;> nofun
  · next hpc =>
    rw [hpc] at hexcl
    split at hs
    · next hguard =>
      split at hs
      · cases hs
        exact h.goto hexcl (by rw [hpc]; nofun) (by nofun) (by nofun)
      · next i hfirst =>
        cases hs
        obtain ⟨hi, hnew⟩ := Table.first_eq_some hfirst
        exact h.mark hpc hi hnew hguard.1
    · cases hs
      exact h.goto hexcl (by rw [hpc]; nofun) (by nofun) (by nofun)
  · next i hpc =>
    cases hs
    exact h.create hpc
  · next hpc =>
    split at hs
    · next hfree =>
      cases hs
      rw [hfree] at hexcl
      exact h.goto hexcl.lockMain (by rw [hpc]; nofun) (by nofun) (by nofun)
    · cases hs
  · next hpc =>
    rw [hpc] at hexcl
    split at hs
    · cases hs
      exact h.goto hexcl.unlockMain (by rw [hpc]; nofun) (by nofun) (by nofun)
    · cases hs
      exact h.goto hexcl (by rw [hpc]; nofun) (by nofun) (by nofun)
  · next i hpc =>
    rw [hpc] at hexcl
    split at hs
    · next hi =>
      cases hs
      refine h.goto ?_ (by rw [hpc]; nofun) ?_ ?_
      · split <;> exact hexcl
      · split <;> nofun
      · split
        · next hdone =>
          intro j hj
          cases hj
          exact ⟨hi, hdone⟩
        · nofun
    · cases hs
      exact h.goto hexcl (by rw [hpc]; nofun) (by nofun) (by nofun)
  · next i hpc =>
    split at hs
    · next fptr hreturned =>
      obtain rfl := h.returned_eq i fptr hreturned
      rw [if_pos rfl] at hs
      cases hs
      exact h.join hpc hreturned
    · cases hs
  · next hpc =>
    cases hs
    rw [hpc] at hexcl
    exact h.goto hexcl.unlockMain (by rw [hpc]; nofun) (by nofun) (by nofun)
  · cases hs

end

/-- **Every step keeps the counters right.** -/
theorem counters_step (s : Sys) (a : Act) (s' : Sys) (h : Counters s) (hs : step s a = some s') :
    Counters s' := by
  cases a with
  | main => exact counters_mainStep h hs
  | thread i =>
    simp only [step] at hs
    split at hs
    · next hi => exact counters_threadStep h hi hs
    · cases hs
  | wake =>
    simp only [step] at hs
    split at hs
    · next hpc =>
      cases hs
      have hexcl := h.exclusive
      rw [hpc] at hexcl
      exact h.goto hexcl (by rw [hpc]; nofun) (by nofun) (by nofun)
    · cases hs

theorem counters_of_reachable {nfiles : ℕ} {maxnconn : ℤ} {s : Sys}
    (h : Reachable step (init nfiles maxnconn) s) : Counters s :=
  exec_invariant counters_step (counters_init nfiles maxnconn) h

/-! ### One thread at a time -/

/-- The main thread goes through the table. -/
def MainPc.scanning : MainPc → Bool
  | .scan _ => true
  | .join _ => true
  | .unlock => true
  | _ => false

/-- While the main thread goes through the table, all threads have returned. -/
def Sys.Settled (s : Sys) : Prop :=
  s.main.scanning = true → ∀ i < s.nfiles, (s.file i).alive = true → ∃ fptr,
    (s.file i).thread = .returned fptr

/-- There is never more than one thread. -/
def Sys.Single (s : Sys) : Prop := s.nfiles ≤ 1 ∨ s.maxnconn ≤ 1

section

variable {s s' : Sys}

theorem Counters.alive_le_one (h : Counters s) (hsingle : s.Single) :
    Table.tally File.alive s.file s.nfiles ≤ 1 := by
  rcases hsingle with hfiles | hconn
  · exact (Table.tally_le _ _ _).trans hfiles
  · have heq := h.nconn_eq
    have hle := h.nconn_le
    omega

theorem single_step {a : Act} (h : s.Single) (hs : step s a = some s') : s'.Single := by
  cases a with
  | main =>
    simp only [step, Sys.mainStep] at hs
    repeat' split at hs
    all_goals cases hs
    all_goals exact h
  | thread i =>
    simp only [step, Sys.threadStep] at hs
    repeat' split at hs
    all_goals cases hs
    all_goals exact h
  | wake =>
    simp only [step] at hs
    split at hs <;> cases hs
    exact h

theorem File.alive_of_counted {f : File} (h : f.counted = true) : f.alive = true := by
  unfold File.counted at h
  split at h
  · next hthread => simp only [File.alive, hthread]
  · next hthread => simp only [File.alive, hthread]
  · next hthread => simp only [File.alive, hthread]
  · cases h

/-- When the main thread finds `ndone` positive, the only thread has been counted and
has given up the mutex. -/
theorem Counters.settled_of_test (h : Counters s) (hsingle : s.Single) (hpc : s.main = .test)
    (hndone : s.ndone ≠ 0) :
    ∀ i < s.nfiles, (s.file i).alive = true → ∃ fptr, (s.file i).thread = .returned fptr := by
  intro i hi halive
  have hpos : 0 < Table.tally File.counted s.file s.nfiles := by
    have := h.ndone_eq
    omega
  obtain ⟨j, hj, hcounted⟩ := Table.tally_pos_iff.mp hpos
  have hjalive := File.alive_of_counted hcounted
  obtain rfl := Table.eq_of_tally_le_one (h.alive_le_one hsingle) hi hj halive hjalive
  have hexcl := h.exclusive
  rw [hpc] at hexcl
  have hout : (s.file i).inside = false := hexcl.worker_outside i
  unfold File.counted at hcounted
  split at hcounted
  · next hthread => simp [File.inside, hthread] at hout
  · next hthread => simp [File.inside, hthread] at hout
  · next fptr hthread => exact ⟨fptr, hthread⟩
  · cases hcounted

/-- The table is settled after a step of the main thread that leaves it alone. -/
theorem Sys.Settled.goto (h : s.Settled) {main : MainPc} {ndoneMutex : Option Mutex.Thread}
    (hmain : main.scanning = true → s.main.scanning = true) :
    Sys.Settled { s with main, ndoneMutex } :=
  fun hscan => h (hmain hscan)

theorem settled_mainStep (hc : Counters s) (hsingle : s.Single) (h : s.Settled)
    (hs : s.mainStep = some s') : s'.Settled := by
  unfold Sys.mainStep at hs
  split at hs
  · cases hs
    refine h.goto ?_
    split <;> nofun
  · split at hs
    · split at hs
      · cases hs
        exact h.goto (by nofun)
      · cases hs
        nofun
    · cases hs
      exact h.goto (by nofun)
  · cases hs
    nofun
  · split at hs
    · cases hs
      exact h.goto (by nofun)
    · cases hs
  · next hpc =>
    split at hs
    · cases hs
      exact h.goto (by nofun)
    · next hndone =>
      cases hs
      exact fun _ => hc.settled_of_test hsingle hpc hndone
  · next i hpc =>
    split at hs
    · cases hs
      exact h.goto fun _ => by rw [hpc]; rfl
    · cases hs
      exact h.goto fun _ => by rw [hpc]; rfl
  · next i hpc =>
    split at hs
    · next fptr hreturned =>
      split at hs
      · cases hs
        intro _ j hj halive
        rcases eq_or_ne j fptr with rfl | hne
        · simp only [Sys.setFile, Function.update_self] at halive
          cases halive
        · simp only [Sys.setFile, Function.update_of_ne hne] at halive ⊢
          exact h (by rw [hpc]; rfl) j hj halive
      · cases hs
        exact h.goto (by nofun)
    · cases hs
  · cases hs
    exact h.goto (by nofun)
  · cases hs

/-- No thread makes a step while the main thread goes through the table. -/
theorem settled_threadStep {i : ℕ} (h : s.Settled) (hi : i < s.nfiles)
    (hs : s.threadStep i = some s') : s'.Settled := by
  intro hscan
  have hmain : s.main.scanning = true := by
    unfold Sys.threadStep at hs
    split at hs
    · cases hs
      exact hscan
    · cases hs
      exact hscan
    · split at hs <;> cases hs
      exact hscan
    · cases hs
      exact hscan
    · cases hs
      simp only at hscan
      split at hscan
      · cases hscan
      · exact hscan
    · cases hs
      exact hscan
    · cases hs
  have hreturned := h hmain i hi
  unfold Sys.threadStep at hs
  split at hs
  all_goals first
    | cases hs; done
    | next hpc =>
      obtain ⟨fptr, heq⟩ := hreturned (by simp only [File.alive, hpc])
      rw [hpc] at heq
      cases heq

theorem settled_step {a : Act} (hc : Counters s) (hsingle : s.Single) (h : s.Settled)
    (hs : step s a = some s') : s'.Settled := by
  cases a with
  | main => exact settled_mainStep hc hsingle h hs
  | thread i =>
    simp only [step] at hs
    split at hs
    · next hi => exact settled_threadStep h hi hs
    · cases hs
  | wake =>
    simp only [step] at hs
    split at hs
    · cases hs
      exact h.goto (by nofun)
    · cases hs

/-- A settled table has no thread the main thread could wait for. -/
theorem Sys.Settled.not_deadlocked (h : s.Settled) (hc : Counters s) : ¬ s.Deadlocked := by
  rintro ⟨i, hmain, -, hbefore⟩
  obtain ⟨hi, -⟩ := hc.join_eq i hmain
  have halive : (s.file i).alive = true := by
    unfold ThreadPc.beforeLock at hbefore
    split at hbefore <;> simp_all [File.alive]
  obtain ⟨fptr, hreturned⟩ := h (by rw [hmain]; rfl) i hi halive
  rw [hreturned] at hbefore
  cases hbefore

end

theorem not_deadlocked_of_single {nfiles : ℕ} {maxnconn : ℤ} (hsingle : nfiles ≤ 1 ∨ maxnconn ≤ 1)
    {s : Sys} (h : Reachable step (init nfiles maxnconn) s) : ¬ s.Deadlocked := by
  have hinv : Counters s ∧ s.Single ∧ s.Settled :=
    exec_invariant (I := fun s => Counters s ∧ s.Single ∧ s.Settled)
      (fun s a s' ⟨hc, hone, hsettled⟩ hs => ⟨counters_step s a s' hc hs, single_step hone hs,
        settled_step hc hone hsettled hs⟩)
      ⟨counters_init nfiles maxnconn, hsingle, by nofun⟩ h
  exact hinv.2.2.not_deadlocked hinv.1

/-! ### Two threads at a time -/

/-- The state in which `k` threads have been created and none has made a step. -/
def spawned (nfiles : ℕ) (maxnconn : ℤ) (k : ℕ) : Sys :=
  { init nfiles maxnconn with
    file := fun i => if i < k then ⟨.connecting, .connect⟩ else ⟨.zero, .unborn⟩
    nconn := k
    nlefttoconn := nfiles - k
    main := .inner }

section

variable {nfiles : ℕ} {maxnconn : ℤ}

/-- One more thread is created. -/
theorem exec_spawned {k : ℕ} (hfiles : k < nfiles) (hconn : (k : ℤ) < maxnconn) :
    exec step (spawned nfiles maxnconn k) [.main, .main] =
      some (spawned nfiles maxnconn (k + 1)) := by
  have hfirst : Table.first File.isNew (spawned nfiles maxnconn k).file nfiles = some k := by
    refine Table.first_eq_some_of hfiles ?_ ?_
    · simp [spawned, File.isNew]
    · intro j hj
      simp [spawned, File.isNew, hj]
  have hleft : (0 : ℤ) < nfiles - k := by omega
  simp only [spawned, init] at hfirst
  simp only [exec, step, Sys.mainStep, spawned, init, hconn, hleft, and_self, if_true, hfirst,
    Option.bind_some, Sys.setFile, Function.update_self, Function.update_idem]
  congr 1
  simp only [Sys.mk.injEq, true_and, and_true]
  refine ⟨?_, by push_cast; rfl, by push_cast; omega⟩
  funext i
  rcases Nat.lt_trichotomy i k with hlt | rfl | hgt
  · rw [Function.update_of_ne (by omega), if_pos hlt, if_pos (by omega)]
  · rw [Function.update_self, if_pos (Nat.lt_succ_self i)]
  · rw [Function.update_of_ne (by omega), if_neg (by omega), if_neg (by omega)]

theorem reachable_spawned (hpos : 0 < nfiles) : ∀ k : ℕ, k ≤ nfiles → (k : ℤ) ≤ maxnconn →
    Reachable step (init nfiles maxnconn) (spawned nfiles maxnconn k) := by
  intro k
  induction k with
  | zero =>
    intro _ _
    refine ⟨[.main], ?_⟩
    simp [exec, step, Sys.mainStep, init, spawned, hpos]
  | succ k ih =>
    intro hfiles hconn
    push_cast at hconn
    exact (ih (by omega) (by omega)).exec (exec_spawned (by omega) (by omega))

end

section

variable {s : Sys}

/-- A thread that finds the mutex free runs to its end. -/
theorem exec_thread_returns {i : ℕ} (hi : i < s.nfiles) (hthread : (s.file i).thread = .connect)
    (hfree : s.ndoneMutex = none) (hmain : s.main ≠ .wait) :
    exec step s [.thread i, .thread i, .thread i, .thread i, .thread i, .thread i] =
      some { s.setFile i ⟨.done, .returned i⟩ with ndone := s.ndone + 1 } := by
  simp [exec, step, Sys.threadStep, Sys.setFile, hi, hthread, hfree, hmain]

/-- The main thread finds a thread that has been counted, and joins the first one. -/
theorem exec_main_joins (hfiles : 0 < s.nfiles) (hmain : s.main = .lock)
    (hfree : s.ndoneMutex = none) (hndone : s.ndone ≠ 0) (hfile : s.file 0 = ⟨.done, .returned 0⟩) :
    exec step s [.main, .main, .main, .main] =
      some { s.setFile 0 ⟨.joined, .joined⟩ with
        ndone := s.ndone - 1
        nconn := s.nconn - 1
        nlefttoread := s.nlefttoread - 1
        ndoneMutex := some .main
        main := .scan 1 } := by
  simp [exec, step, Sys.mainStep, Sys.setFile, hfiles, hmain, hfree, hndone, hfile]

/-- A thread writes its flag, and the main thread, which has the mutex, sees it. -/
theorem exec_main_overtakes {i : ℕ} (hi : i < s.nfiles) (hmain : s.main = .scan i)
    (hthread : (s.file i).thread = .connect) :
    exec step s [.thread i, .thread i, .main] =
      some { s.setFile i ⟨.done, .lock⟩ with main := .join i } := by
  simp [exec, step, Sys.threadStep, Sys.mainStep, Sys.setFile, hi, hmain, hthread]

/-- **Two threads at a time.**  The thread `0` ends and is joined; then the thread `1`
writes its flag, and the main thread waits for it. -/
theorem exists_deadlocked_of_lock (hfiles : 1 < s.nfiles) (hmain : s.main = .lock)
    (hfree : s.ndoneMutex = none) (hndone : s.ndone = 0) (hzero : (s.file 0).thread = .connect)
    (hone : (s.file 1).thread = .connect) : ∃ t, Reachable step s t ∧ t.Deadlocked := by
  have hpos : 0 < s.nfiles := Nat.zero_lt_of_lt hfiles
  have hreturned : Reachable step s _ :=
    (Reachable.refl s).exec (exec_thread_returns hpos hzero hfree (by rw [hmain]; nofun))
  have hjoined : Reachable step s _ :=
    hreturned.exec (exec_main_joins hpos hmain hfree (by simp [hndone]) (by simp [Sys.setFile]))
  have hovertaken : Reachable step s _ :=
    hjoined.exec (exec_main_overtakes (i := 1) hfiles rfl (by simpa [Sys.setFile] using hone))
  refine ⟨_, hovertaken, 1, rfl, rfl, ?_⟩
  simp [Sys.setFile, ThreadPc.beforeLock]

end

theorem exists_deadlocked {nfiles : ℕ} {maxnconn : ℤ} (hfiles : 1 < nfiles) (hconn : 1 < maxnconn) :
    ∃ s, Reachable step (init nfiles maxnconn) s ∧ s.Deadlocked := by
  -- as many threads as the program will create before it waits
  obtain ⟨k, hk⟩ : ∃ k : ℕ, k = min nfiles maxnconn.toNat := ⟨_, rfl⟩
  have hfull : ¬ ((k : ℤ) < maxnconn ∧ (0 : ℤ) < nfiles - k) := by omega
  have hthread : ∀ i < 2, ((spawned nfiles maxnconn k).file i).thread = .connect := by
    intro i hi
    have hik : i < k := by omega
    simp only [spawned, hik, if_true]
  have hspawned : Reachable step (init nfiles maxnconn) (spawned nfiles maxnconn k) :=
    reachable_spawned (by omega) k (by omega) (by omega)
  have hlock : exec step (spawned nfiles maxnconn k) [.main] =
      some { spawned nfiles maxnconn k with main := .lock } := by
    simp only [exec, step, Sys.mainStep, spawned, init, hfull, if_false, Option.bind_some]
  obtain ⟨t, ⟨run, hrun⟩, hdead⟩ := exists_deadlocked_of_lock
    (s := { spawned nfiles maxnconn k with main := .lock }) hfiles rfl rfl rfl
    (hthread 0 (by decide)) (hthread 1 (by decide))
  exact ⟨t, (hspawned.exec hlock).exec hrun, hdead⟩

/-- **When the program cannot deadlock.**  For all numbers of files and connections:
in every reachable state `ndone` is not negative and the main thread does not wait, with
the mutex locked, for a thread that has still to lock it, exactly if there is at most one
file, or one connection at a time. -/
theorem deadlock_iff (nfiles : ℕ) (maxnconn : ℤ) :
    (∀ s, Reachable step (init nfiles maxnconn) s → ¬ s.Deadlocked ∧ 0 ≤ s.ndone) ↔
      nfiles ≤ 1 ∨ maxnconn ≤ 1 := by
  constructor
  · intro h
    by_contra hboth
    rw [not_or, Nat.not_le, Int.not_le] at hboth
    obtain ⟨s, hs, hdead⟩ := exists_deadlocked hboth.1 hboth.2
    exact (h s hs).1 hdead
  · intro hsingle s hs
    refine ⟨not_deadlocked_of_single hsingle hs, ?_⟩
    rw [(counters_of_reachable hs).ndone_eq]
    exact Int.natCast_nonneg _

/-- Two threads are created; the first one ends and is joined, the second one writes its
flag before the main thread gets to its entry. -/
def overtakeRun : List Act :=
  [.main, .main, .main, .main, .main, .main, .thread 0, .thread 0, .thread 0, .thread 0, .thread 0,
   .thread 0, .main, .main, .main, .main, .thread 1, .thread 1, .main]

/-- With two files and two connections: the thread `0` has been joined, and the main
thread waits for the thread `1`, which waits for the mutex. -/
theorem deadlocked_two_files :
    ∃ s, exec step (init 2 2) overtakeRun = some s ∧
      s.main = .join 1 ∧ s.ndoneMutex = some .main ∧ (s.file 1).thread = .lock ∧
      step s (.thread 1) = none ∧ step s .main = none ∧ s.Deadlocked := by
  obtain ⟨s, hs, hfacts⟩ := Option.map_eq_some_iff.mp
    (show (exec step (init 2 2) overtakeRun).map
      (fun s => (s.nfiles, s.main, s.ndoneMutex, (s.file 1).thread)) =
        some (2, .join 1, some .main, .lock) by decide)
  simp only [Prod.mk.injEq] at hfacts
  obtain ⟨hfiles, hmain, hmutex, hthread⟩ := hfacts
  refine ⟨s, hs, hmain, hmutex, hthread, ?_, ?_, 1, hmain, hmutex, by rw [hthread]; rfl⟩
  · simp [step, Sys.threadStep, hfiles, hthread, hmutex]
  · simp [step, Sys.mainStep, hmain, hthread]

end Web03
end TcpIp
