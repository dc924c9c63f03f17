import TcpIp.Lib.Bounded
import TcpIp.Lib.Mutex
import TcpIp.Lib.Ring

/-!
# A producer, a consumer and a buffer

In `threads/example03.c` one thread puts the numbers from `0` on into a circular buffer and another
one takes them out.  The buffer is protected by a mutex; the producer waits for a condition when the
buffer is full and the consumer waits for another one when it is empty, and each signals the other
one when it has put in or taken out an item.

A thread that waits gives the mutex up, and locks it again before it tests the buffer once more.  It
may also wake up without having been signalled.

## Main definitions

* `Sys`, `Act`, `step`, `init` — the threads and the buffer, of any size, and with any `NLOOP`.

## Main results

* `buffer_run` — **the consumer gets the numbers in order**, the buffer never holds more than it has
  room for, and a run in which the threads cannot go on has handed over all numbers; the number of
  steps is bounded, so that no signal is ever missed.
-/

namespace TcpIp.BoundedBuffer

open Run Mutex

/-! ### The threads -/

inductive Who where
  | prod | cons
  deriving DecidableEq, Repr

def Who.other : Who → Who
  | .prod => .cons
  | .cons => .prod

/-- Where a thread is in `produce` or `consume`. -/
inductive Pc where
  /-- In `Pthread_mutex_lock`, or on its way out of `Pthread_cond_wait`. -/
  | lock
  | test
  /-- In `Pthread_cond_wait`. -/
  | waiting
  /-- About to put in or to take out an item. -/
  | item
  | signal
  | unlock
  | finished
  deriving DecidableEq, Repr

structure Thr where
  pc : Pc
  /-- The iterations that have been made. -/
  i : ℕ
  deriving DecidableEq, Repr

structure Sys where
  thr : Who → Thr
  mutex : Option Who
  buf : ℕ → ℕ
  nitems : ℕ
  nextget : ℕ
  nextput : ℕ
  /-- What has been put in. -/
  produced : List ℕ
  /-- What has been taken out. -/
  consumed : List ℕ

inductive Act where
  /-- The next step of a thread. -/
  | run (w : Who)
  /-- A thread wakes up without a signal. -/
  | wakeup (w : Who)
  deriving DecidableEq, Repr

/-- `BUFFSIZE` and `NLOOP`. -/
structure Params where
  size : ℕ
  n : ℕ
  size_pos : 0 < size

variable (p : Params)

/-- In front of an iteration, when `i` of them have been made. -/
def top (i : ℕ) : Thr := ⟨if i < p.n then .lock else .finished, i⟩

def Sys.set (s : Sys) (w : Who) (x : Thr) : Sys := { s with thr := Function.update s.thr w x }

/-- The condition of the `while` loop around `Pthread_cond_wait`. -/
def Sys.mustWait (s : Sys) : Who → Bool
  | .prod => p.size ≤ s.nitems
  | .cons => s.nitems ≤ 0

/-- An item is put in, or taken out. -/
def Sys.item (s : Sys) : Who → Sys
  | .prod =>
    let val := (s.thr .prod).i
    { s with
      buf := Function.update s.buf s.nextput val
      nextput := if p.size ≤ s.nextput + 1 then 0 else s.nextput + 1
      nitems := s.nitems + 1
      produced := s.produced ++ [val] }
  | .cons =>
    { s with
      nextget := if p.size ≤ s.nextget + 1 then 0 else s.nextget + 1
      nitems := s.nitems - 1
      consumed := s.consumed ++ [s.buf s.nextget] }

/-- `Pthread_cond_signal`: the other thread wakes up if it waits. -/
def Sys.wake (s : Sys) (w : Who) : Sys :=
  if (s.thr w).pc = .waiting then s.set w ⟨.lock, (s.thr w).i⟩ else s

def step (s : Sys) : Act → Option Sys
  | .run w =>
    let i := (s.thr w).i
    match (s.thr w).pc with
    | .lock => if s.mutex = none then some { s.set w ⟨.test, i⟩ with mutex := some w } else none
    | .test =>
      if s.mustWait p w then some { s.set w ⟨.waiting, i⟩ with mutex := none }
      else some (s.set w ⟨.item, i⟩)
    | .item => some ((s.item p w).set w ⟨.signal, i⟩)
    | .signal => some ((s.wake w.other).set w ⟨.unlock, i⟩)
    | .unlock => some { s.set w (top p (i + 1)) with mutex := none }
    | .waiting | .finished => none
  | .wakeup w => if (s.thr w).pc = .waiting then some (s.wake w) else none

/-- The threads when they have been created. -/
def init : Sys := ⟨fun _ => top p 0, none, fun _ => 0, 0, 0, 0, [], []⟩

/-! ### The buffer -/

section Buffer

variable {p} {s s' : Sys} {P C : ℕ}

/-- The buffer when the numbers up to `P` have been put in and those up to `C` taken out. -/
structure Queue (p : Params) (s : Sys) (P C : ℕ) : Prop where
  produced : s.produced = List.range P
  consumed : s.consumed = List.range C
  nitems : s.nitems + C = P
  room : P ≤ C + p.size
  holds : Ring.Holds p.size s.buf s.produced C
  nextput : s.nextput = P % p.size
  nextget : s.nextget = C % p.size

theorem queue_init : Queue p (init p) 0 0 where
  produced := rfl
  consumed := rfl
  nitems := rfl
  room := Nat.zero_le _
  holds := Ring.holds_nil _ _ _
  nextput := (Nat.zero_mod _).symm
  nextget := (Nat.zero_mod _).symm

/-- The index behind another one, as the threads compute it. -/
theorem next_index (p : Params) (k : ℕ) :
    (if p.size ≤ k % p.size + 1 then 0 else k % p.size + 1) = (k + 1) % p.size := by
  rw [← Ring.next_eq_of_lt (Nat.mod_lt k p.size_pos), Ring.next_mod p.size_pos]

theorem Queue.put (h : Queue p s P C) (hroom : s.mustWait p .prod = false)
    (hval : (s.thr .prod).i = P) : Queue p (s.item p .prod) (P + 1) C := by
  have hnitems := h.nitems
  have hlt : s.nitems < p.size := by simpa [Sys.mustWait] using hroom
  have hlen : s.produced.length = P := by rw [h.produced, List.length_range]
  have hput := h.holds.put (by omega) P
  rw [hlen] at hput
  refine ⟨?_, h.consumed, ?_, by omega, ?_, ?_, h.nextget⟩
  · simp only [Sys.item, hval, h.produced, List.range_succ]
  · simp only [Sys.item]
    omega
  · simp only [Sys.item, hval, h.nextput]
    exact hput
  · simp only [Sys.item, h.nextput, next_index]

theorem Queue.get (h : Queue p s P C) (hready : s.mustWait p .cons = false) :
    Queue p (s.item p .cons) P (C + 1) := by
  have hnitems := h.nitems
  have hpos : 0 < s.nitems := by simpa [Sys.mustWait, Nat.pos_iff_ne_zero] using hready
  have hval : s.buf (C % p.size) = C := by
    have hget := h.holds.get (by rw [h.produced, List.length_range]; omega)
    rw [h.produced, List.getElem?_range (by omega)] at hget
    exact (Option.some.inj hget).symm
  have hroom := h.room
  refine ⟨h.produced, ?_, ?_, by omega, h.holds.drop, h.nextput, ?_⟩
  · simp only [Sys.item, h.nextget, hval, h.consumed, List.range_succ]
  · simp only [Sys.item]
    omega
  · simp only [Sys.item, h.nextget, next_index]

end Buffer

/-! ### The threads take turns -/

section Turns

variable {p} {s s' : Sys} {w : Who}

/-- The mutex is locked here. -/
def Pc.inside : Pc → Bool
  | .test | .item | .signal | .unlock => true
  | _ => false

/-- The items that a thread has put in or taken out. -/
def Thr.done (x : Thr) : ℕ := x.i + match x.pc with | .signal | .unlock => 1 | _ => 0

structure Inv (p : Params) (s : Sys) : Prop where
  guards : Guards s.mutex fun w => (s.thr w).pc.inside
  ends : ∀ w, (s.thr w).i ≤ p.n ∧ ((s.thr w).pc = .finished ↔ (s.thr w).i = p.n)
  queue : Queue p s (s.thr .prod).done (s.thr .cons).done
  ready : ∀ w, (s.thr w).pc = .item → s.mustWait p w = false
  /-- A thread that waits has to, or is about to be signalled. -/
  told : ∀ w, (s.thr w).pc = .waiting → s.mustWait p w = true ∨ (s.thr w.other).pc = .signal

@[simp] theorem thr_set_self (s : Sys) (w : Who) (x : Thr) : (s.set w x).thr w = x := by
  simp [Sys.set]

theorem thr_set_of_ne {w' : Who} (s : Sys) (x : Thr) (h : w' ≠ w) :
    (s.set w x).thr w' = s.thr w' := by
  simp [Sys.set, h]

theorem inside_set (s : Sys) (w : Who) (x : Thr) :
    (fun w' => ((s.set w x).thr w').pc.inside) =
      Function.update (fun w' => (s.thr w').pc.inside) w x.pc.inside := by
  funext w'
  by_cases h : w' = w
  · subst h
    rw [thr_set_self, Function.update_self]
  · rw [thr_set_of_ne s x h, Function.update_of_ne h]

theorem other_ne (w : Who) : w.other ≠ w := by
  cases w <;> nofun

theorem eq_or_eq_other (w w' : Who) : w' = w ∨ w' = w.other := by
  cases w <;> cases w' <;> simp [Who.other]

theorem other_other (w : Who) : w.other.other = w := by
  cases w <;> rfl

theorem inside_top (i : ℕ) : (top p i).pc.inside = false := by
  unfold top
  split <;> rfl

theorem done_top (i : ℕ) : (top p i).done = i := by
  unfold top
  split <;> rfl

theorem finished_top {i : ℕ} (hi : i ≤ p.n) : (top p i).pc = .finished ↔ i = p.n := by
  unfold top
  split
  · exact iff_of_false nofun (by omega)
  · exact iff_of_true rfl (by omega)

theorem top_ne {i : ℕ} : (top p i).pc ≠ .item ∧ (top p i).pc ≠ .waiting := by
  unfold top
  split <;> exact ⟨nofun, nofun⟩

theorem inv_init : Inv p (init p) := by
  have hthr : ∀ w, (init p).thr w = top p 0 := fun _ => rfl
  refine ⟨fun w => ?_, fun w => ?_, ?_, fun w hw => ?_, fun w hw => ?_⟩
  · simp only [hthr, inside_top]
    exact iff_of_false nofun nofun
  · rw [hthr]
    exact ⟨Nat.zero_le _, finished_top (Nat.zero_le _)⟩
  · rw [hthr, hthr, done_top]
    exact queue_init
  · rw [hthr] at hw
    exact absurd hw top_ne.1
  · rw [hthr] at hw
    exact absurd hw top_ne.2

/-- A thread makes a step that does not touch the buffer. -/
theorem Inv.set (h : Inv p s) {x : Thr} {m : Option Who}
    (hguards : Guards m (Function.update (fun w' => (s.thr w').pc.inside) w x.pc.inside))
    (hends : x.i ≤ p.n ∧ (x.pc = .finished ↔ x.i = p.n)) (hdone : x.done = (s.thr w).done)
    (hready : x.pc = .item → s.mustWait p w = false)
    (htold : x.pc = .waiting → s.mustWait p w = true)
    (hsignal : (s.thr w).pc = .signal → (s.thr w.other).pc ≠ .waiting) :
    Inv p { s.set w x with mutex := m } := by
  have hother : (s.set w x).thr w.other = s.thr w.other := thr_set_of_ne s x (other_ne w)
  refine ⟨?_, fun w' => ?_, ?_, fun w' => ?_, fun w' => ?_⟩
  · rw [← inside_set] at hguards
    exact hguards
  · rcases eq_or_eq_other w w' with rfl | rfl
    · simpa using hends
    · simpa [hother] using h.ends w.other
  · have hall : ∀ w', ((s.set w x).thr w').done = (s.thr w').done := by
      intro w'
      rcases eq_or_eq_other w w' with rfl | rfl
      · rw [thr_set_self, hdone]
      · rw [hother]
    have hq := h.queue
    rw [← hall, ← hall] at hq
    exact ⟨hq.produced, hq.consumed, hq.nitems, hq.room, hq.holds, hq.nextput, hq.nextget⟩
  · rcases eq_or_eq_other w w' with rfl | rfl
    · intro hw
      exact hready (by simpa using hw)
    · intro hw
      simp only [hother] at hw
      exact h.ready _ hw
  · rcases eq_or_eq_other w w' with rfl | rfl
    · intro hw
      exact .inl (htold (by simpa using hw))
    · intro hw
      simp only [hother] at hw
      rcases h.told _ hw with hwait | hsig
      · exact .inl hwait
      · rw [other_other] at hsig
        exact absurd hw (hsignal hsig)

/-- A thread that is inside stays there. -/
theorem Inv.stays (h : Inv p s) {x : Thr} (hw : (s.thr w).pc.inside = true)
    (hx : x.pc.inside = true) :
    Guards s.mutex (Function.update (fun w' => (s.thr w').pc.inside) w x.pc.inside) := by
  rw [hx, ← hw, Function.update_eq_self]
  exact h.guards

/-- While a thread is inside the other one is not. -/
theorem Inv.outside (h : Inv p s) (hw : (s.thr w).pc.inside = true) :
    (s.thr w.other).pc.inside = false := by
  by_contra hin
  exact other_ne w (h.guards.unique (by simpa using hin) hw)

/-- A thread wakes up. -/
theorem Inv.wake (h : Inv p s) (w : Who) : Inv p (s.wake w) := by
  unfold Sys.wake
  split
  · next hpc =>
    have hguards := h.guards
    have hends := h.ends w
    rw [hpc] at hends
    refine h.set (m := s.mutex) ?_ ⟨hends.1, by simpa using hends.2⟩ (by simp [Thr.done, hpc])
      nofun nofun (by rw [hpc]; nofun)
    rw [show Pc.inside .lock = (s.thr w).pc.inside by rw [hpc]; rfl, Function.update_eq_self]
    exact hguards
  · exact h

/-- An item is put in, or taken out. -/
theorem Inv.item (h : Inv p s) (hpc : (s.thr w).pc = .item) :
    Inv p ((s.item p w).set w ⟨.signal, (s.thr w).i⟩) := by
  have hin : (s.thr w).pc.inside = true := by rw [hpc]; rfl
  have hthr : (s.item p w).thr = s.thr := by cases w <;> rfl
  have hmutex : (s.item p w).mutex = s.mutex := by cases w <;> rfl
  have hother : ((s.item p w).set w ⟨.signal, (s.thr w).i⟩).thr w.other = s.thr w.other := by
    rw [thr_set_of_ne _ _ (other_ne w), hthr]
  obtain ⟨hle, hfinished⟩ := h.ends w
  rw [hpc] at hfinished
  refine ⟨?_, fun w' => ?_, ?_, fun w' hw => ?_, fun w' hw => ?_⟩
  · rw [inside_set, hthr, show (Sys.set _ w _).mutex = s.mutex from hmutex]
    exact h.stays (x := ⟨.signal, (s.thr w).i⟩) hin rfl
  · rcases eq_or_eq_other w w' with rfl | rfl
    · rw [thr_set_self]
      exact ⟨hle, by simpa using hfinished⟩
    · rw [hother]
      exact h.ends _
  · have hready := h.ready w hpc
    have hq := h.queue
    have hdone : (s.thr w).done = (s.thr w).i := by
      rw [Thr.done, hpc]
      rfl
    cases w with
    | prod =>
      rw [hdone] at hq
      have hput := hq.put hready rfl
      rw [thr_set_self, show Sys.thr _ .cons = s.thr .cons from hother]
      exact ⟨hput.produced, hput.consumed, hput.nitems, hput.room, hput.holds, hput.nextput,
        hput.nextget⟩
    | cons =>
      rw [hdone] at hq
      have hget := hq.get hready
      rw [thr_set_self, show Sys.thr _ .prod = s.thr .prod from hother]
      exact ⟨hget.produced, hget.consumed, hget.nitems, hget.room, hget.holds, hget.nextput,
        hget.nextget⟩
  · rcases eq_or_eq_other w w' with rfl | rfl
    · rw [thr_set_self] at hw
      cases hw
    · have hout := h.outside hin
      rw [hother] at hw
      rw [hw] at hout
      cases hout
  · rcases eq_or_eq_other w w' with rfl | rfl
    · rw [thr_set_self] at hw
      cases hw
    · right
      rw [other_other, thr_set_self]

theorem thr_wake_of_ne {w' : Who} (h : w' ≠ w) : (s.wake w).thr w' = s.thr w' := by
  unfold Sys.wake
  split
  · exact thr_set_of_ne _ _ h
  · rfl

theorem wake_ne_waiting : ((s.wake w).thr w).pc ≠ .waiting := by
  unfold Sys.wake
  split
  · rw [thr_set_self]
    nofun
  · assumption

theorem Inv.run (h : Inv p s) (hs : step p s (.run w) = some s') : Inv p s' := by
  obtain ⟨hle, hfinished⟩ := h.ends w
  simp only [step] at hs
  cases hpc : (s.thr w).pc with
  | waiting | finished => simp [hpc] at hs
  | lock =>
    simp only [hpc] at hs
    obtain ⟨hfree, rfl⟩ := Option.ite_some_none_eq_some.mp hs
    have hguards := h.guards
    rw [hfree] at hguards
    rw [hpc] at hfinished
    exact h.set (hguards.lock w) ⟨hle, by simpa using hfinished⟩ (by simp [Thr.done, hpc]) nofun
      nofun (by rw [hpc]; nofun)
  | test =>
    have hin : (s.thr w).pc.inside = true := by rw [hpc]; rfl
    simp only [hpc] at hs
    rw [hpc] at hfinished
    split at hs
    · next hwait =>
      obtain rfl := Option.some.inj hs
      exact h.set (h.guards.unlock hin) ⟨hle, by simpa using hfinished⟩ (by simp [Thr.done, hpc])
        nofun (fun _ => hwait) (by rw [hpc]; nofun)
    · next hgo =>
      obtain rfl := Option.some.inj hs
      exact h.set (m := s.mutex) (h.stays (x := ⟨.item, (s.thr w).i⟩) hin rfl)
        ⟨hle, by simpa using hfinished⟩ (by simp [Thr.done, hpc]) (fun _ => by simpa using hgo)
        nofun (by rw [hpc]; nofun)
  | item =>
    simp only [hpc] at hs
    obtain rfl := Option.some.inj hs
    exact h.item hpc
  | signal =>
    have hthr : (s.wake w.other).thr w = s.thr w := thr_wake_of_ne (other_ne w).symm
    have hin : ((s.wake w.other).thr w).pc.inside = true := by rw [hthr, hpc]; rfl
    simp only [hpc] at hs
    obtain rfl := Option.some.inj hs
    rw [hpc] at hfinished
    have hwoken := h.wake w.other
    exact hwoken.set (m := (s.wake w.other).mutex)
      (hwoken.stays (x := ⟨.unlock, (s.thr w).i⟩) hin rfl)
      ⟨hle, by simpa using hfinished⟩ (by simp [Thr.done, hthr, hpc]) nofun nofun
      fun _ => wake_ne_waiting
  | unlock =>
    have hin : (s.thr w).pc.inside = true := by rw [hpc]; rfl
    have hlt : (s.thr w).i + 1 ≤ p.n := by
      rw [hpc] at hfinished
      have := mt hfinished.mpr nofun
      omega
    simp only [hpc] at hs
    obtain rfl := Option.some.inj hs
    have hguards := h.guards.unlock hin
    rw [← inside_top (p := p) ((s.thr w).i + 1)] at hguards
    exact h.set hguards ⟨hlt, finished_top hlt⟩ (by rw [done_top, Thr.done, hpc])
      (fun hw => absurd hw top_ne.1) (fun hw => absurd hw top_ne.2) (by rw [hpc]; nofun)

theorem Inv.step {a : Act} (h : Inv p s) (hs : BoundedBuffer.step p s a = some s') : Inv p s' := by
  cases a with
  | run w => exact h.run hs
  | wakeup w =>
    obtain ⟨-, rfl⟩ := Option.ite_some_none_eq_some.mp hs
    exact h.wake w

theorem inv_reachable (hs : Reachable (BoundedBuffer.step p) (init p) s) : Inv p s :=
  exec_invariant (fun _ _ _ h hs => h.step hs) inv_init hs

end Turns

/-! ### The threads end -/

section Ends

variable {p} {s s' : Sys} {w : Who}

/-- The steps that a thread has made in its iteration; a signal may give the other thread two
more. -/
def Pc.phase : Pc → ℕ
  | .lock | .finished => 0
  | .test => 1
  | .waiting | .item => 2
  | .signal => 3
  | .unlock => 6

/-- The steps that are left to it. -/
def Thr.left (n : ℕ) (x : Thr) : ℕ := 7 * (n - x.i) - x.pc.phase

def Sys.left (s : Sys) (n : ℕ) : ℕ := (s.thr .prod).left n + (s.thr .cons).left n

theorem left_set (s : Sys) (n : ℕ) (w : Who) (x : Thr) :
    (s.set w x).left n + (s.thr w).left n = s.left n + x.left n := by
  cases w <;> simp [Sys.set, Sys.left] <;> omega

theorem left_wake (s : Sys) (n : ℕ) (w : Who) : (s.wake w).left n ≤ s.left n + 2 := by
  unfold Sys.wake
  split
  · next hpc =>
    have hleft := left_set s n w ⟨.lock, (s.thr w).i⟩
    simp only [Thr.left, hpc, Pc.phase] at hleft
    omega
  · omega

/-- What a step does to the thread that makes it, and to the other one. -/
theorem thr_run (hs : step p s (.run w) = some s') :
    ∃ s₁ x, s'.left p.n = (s₁.set w x).left p.n ∧ s₁.thr w = s.thr w ∧ (s.thr w).pc ≠ .finished ∧
      (x.i = (s.thr w).i ∧
        (∃ k, s₁.left p.n ≤ s.left p.n + k ∧ x.pc.phase = (s.thr w).pc.phase + 1 + k) ∨
      s₁ = s ∧ (s.thr w).pc = .unlock ∧ x = top p ((s.thr w).i + 1)) := by
  simp only [step] at hs
  cases hpc : (s.thr w).pc with
  | waiting | finished => simp [hpc] at hs
  | lock =>
    simp only [hpc] at hs
    obtain ⟨-, rfl⟩ := Option.ite_some_none_eq_some.mp hs
    exact ⟨s, _, rfl, rfl, nofun, .inl ⟨rfl, 0, Nat.le_refl _, rfl⟩⟩
  | test =>
    simp only [hpc] at hs
    split at hs
    all_goals
      obtain rfl := Option.some.inj hs
      exact ⟨s, _, rfl, rfl, nofun, .inl ⟨rfl, 0, Nat.le_refl _, rfl⟩⟩
  | item =>
    have hthr : (s.item p w).thr = s.thr := by cases w <;> rfl
    simp only [hpc] at hs
    obtain rfl := Option.some.inj hs
    refine ⟨s.item p w, _, rfl, by rw [hthr], nofun, .inl ⟨rfl, 0, ?_, rfl⟩⟩
    rw [Sys.left, hthr]
    exact Nat.le_refl _
  | signal =>
    simp only [hpc] at hs
    obtain rfl := Option.some.inj hs
    exact ⟨s.wake w.other, _, rfl, thr_wake_of_ne (other_ne w).symm, nofun,
      .inl ⟨rfl, 2, left_wake s p.n w.other, rfl⟩⟩
  | unlock =>
    simp only [hpc] at hs
    obtain rfl := Option.some.inj hs
    exact ⟨s, _, rfl, rfl, nofun, .inr ⟨rfl, rfl, rfl⟩⟩

theorem phase_top (i : ℕ) : (top p i).pc.phase = 0 := by
  unfold top
  split <;> rfl

theorem phase_le (pc : Pc) : pc.phase ≤ 6 := by
  cases pc <;> simp [Pc.phase]

theorem left_run (h : Inv p s) (hs : step p s (.run w) = some s') :
    s'.left p.n + 1 ≤ s.left p.n := by
  obtain ⟨s₁, x, hleft, hthr, hpc, hx⟩ := thr_run hs
  obtain ⟨hle, hfinished⟩ := h.ends w
  have hlt := mt hfinished.mpr hpc
  have hset := left_set s₁ p.n w x
  rw [hleft]
  rw [hthr] at hset
  rcases hx with ⟨hi, k, hk, hphase⟩ | ⟨rfl, hunlock, rfl⟩
  · have := phase_le x.pc
    rw [Thr.left, Thr.left, hi, hphase] at hset
    omega
  · have hi : (top p ((s₁.thr w).i + 1)).i = (s₁.thr w).i + 1 := rfl
    have hsix : Pc.unlock.phase = 6 := rfl
    rw [Thr.left, Thr.left, hunlock, phase_top, hi, hsix] at hset
    omega

/-- A thread makes its next step. -/
def Act.runs : Act → Bool
  | .run _ => true
  | .wakeup _ => false

theorem left_step {a : Act} (h : Inv p s) (hs : step p s a = some s') :
    s'.left p.n + (if a.runs then 1 else 0) ≤ s.left p.n + (if !a.runs then 2 else 0) := by
  cases a with
  | run w => exact left_run h hs
  | wakeup w =>
    obtain ⟨-, rfl⟩ := Option.ite_some_none_eq_some.mp hs
    exact left_wake s p.n w

/-- **No signal is missed**: threads that cannot go on have ended. -/
theorem finished_of_stuck (h : Inv p s) (hstuck : ∀ w, step p s (.run w) = none) :
    ∀ w, (s.thr w).pc = .finished := by
  have hfree : s.mutex = none := by
    cases hm : s.mutex with
    | none => rfl
    | some w =>
      have hin := (h.guards w).mp hm
      have hnone := hstuck w
      simp only [step] at hnone
      cases hpc : (s.thr w).pc <;> simp [hpc, Pc.inside] at hin hnone
      split at hnone <;> cases hnone
  have hpc : ∀ w, (s.thr w).pc = .waiting ∨ (s.thr w).pc = .finished := by
    intro w
    have hout := hfree ▸ h.guards
    have hin := hout.outside w
    have hnone := hstuck w
    simp only [step] at hnone
    cases hpc : (s.thr w).pc <;> simp [hpc, hfree, Pc.inside] at hin hnone ⊢
  have hdone : ∀ w, (s.thr w).done = (s.thr w).i := by
    intro w
    rcases hpc w with h | h <;> rw [Thr.done, h] <;> rfl
  have hwait : ∀ w, (s.thr w).pc = .waiting → s.mustWait p w = true ∧ (s.thr w).i < p.n := by
    intro w hw
    obtain ⟨hle, hfinished⟩ := h.ends w
    have hne := mt hfinished.mpr (by rw [hw]; nofun)
    refine ⟨(h.told w hw).resolve_right fun hsignal => ?_, by omega⟩
    rcases hpc w.other with h | h <;> rw [h] at hsignal <;> cases hsignal
  have hsize := p.size_pos
  have hnitems := h.queue.nitems
  rw [hdone, hdone] at hnitems
  -- a buffer that is full, or a consumer that has ended, leaves nothing to wait for
  rcases hpc .prod with hprod | hprod <;> rcases hpc .cons with hcons | hcons
  · have hfull := (hwait .prod hprod).1
    have hempty := (hwait .cons hcons).1
    simp only [Sys.mustWait, decide_eq_true_eq] at hfull hempty
    omega
  · have hlt := (hwait .prod hprod).2
    have hend := (h.ends .cons).2.mp hcons
    omega
  · obtain ⟨hempty, hlt⟩ := hwait .cons hcons
    have hend := (h.ends .prod).2.mp hprod
    simp only [Sys.mustWait, decide_eq_true_eq] at hempty
    omega
  · intro w
    cases w with
    | prod => exact hprod
    | cons => exact hcons

end Ends

/-- **The consumer gets the numbers in order**, with never more of them in the buffer than there is
room for.  The threads make `14 * n` steps at most, and two more for each time one of them wakes up
without a signal; when they cannot go on all numbers have been handed over. -/
theorem buffer_run (as : List Act) (s : Sys) (hs : exec (step p) (init p) as = some s) :
    s.consumed = List.range s.consumed.length ∧ s.consumed.length ≤ s.produced.length ∧
      s.produced.length ≤ s.consumed.length + p.size ∧
      as.countP (·.runs) ≤ 14 * p.n + 2 * as.countP (!·.runs) ∧
      ((∀ w, step p s (.run w) = none) → s.consumed = List.range p.n) := by
  have h : Inv p s := inv_reachable ⟨as, hs⟩
  have hq := h.queue
  have hproduced : s.produced.length = (s.thr .prod).done := by rw [hq.produced, List.length_range]
  have hconsumed : s.consumed.length = (s.thr .cons).done := by rw [hq.consumed, List.length_range]
  have hnitems := hq.nitems
  refine ⟨by rw [hconsumed]; exact hq.consumed, by omega, ?_, ?_, fun hstuck => ?_⟩
  · rw [hproduced, hconsumed]
    exact hq.room
  · have hkeeps : ∀ s a s', Inv p s → True → step p s a = some s' → Inv p s' :=
      fun _ _ _ h _ hs => h.step hs
    have hcount := countP_add_le_add_mul hkeeps (fun _ _ _ h _ hs => left_step h hs) as _ s inv_init
      (along_of_forall as _ fun _ _ _ => trivial) hs
    have hstart : (init p).left p.n = 14 * p.n := by
      simp only [Sys.left, init, Thr.left, phase_top]
      simp only [top]
      omega
    omega
  · have hfinished := finished_of_stuck h hstuck .cons
    have hi := (h.ends .cons).2.mp hfinished
    have hdone : (s.thr .cons).done = p.n := by
      rw [Thr.done, hfinished, hi]
      rfl
    rw [hq.consumed, hdone]

/-- A buffer for one number, and two numbers. -/
def small : Params := ⟨1, 2, by decide⟩

/-- The producer fills the buffer, and waits until the consumer has taken the first number. -/
def handOver : List Act :=
  [.run .prod, .run .prod, .run .prod, .run .prod, .run .prod, .run .prod, .run .prod, .run .cons,
    .run .cons, .run .cons, .run .cons, .run .cons]

theorem buffer_run_handOver :
    ∃ s, exec (step small) (init small) handOver = some s ∧ s.consumed = List.range 1 :=
  ⟨_, rfl, (buffer_run small handOver _ rfl).1⟩

end TcpIp.BoundedBuffer
