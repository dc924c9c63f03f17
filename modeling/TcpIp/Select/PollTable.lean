import TcpIp.Lib.Run
import TcpIp.Lib.Table
import TcpIp.Select.Server

/-!
# The client table of the server over `poll`

`tcpcliserv/tcpservpoll01.c` keeps its clients in an array of `pollfd` structures, the first
one of which is for the listening socket.  `poll` stores what it has found in the `revents`
of the first `maxi + 1` of them.  The array is an automatic variable: what is in the `revents`
of the other ones is whatever was on the stack.

A connection that has just been accepted may get the entry behind those that `poll` has been
given, and the loop over the clients then comes to this entry too, unless it has come to the
last one of the `nready` entries before.  That is so if it serves all of the others.  An entry
that `poll` reports with `POLLHUP` only is counted in `nready` and not served.

An action is one system call with what the kernel chose, or a step of the loop over the
array.  What is read and echoed is left out.  A component `reported` holds the descriptors
that the last `poll` has reported with `POLLRDNORM` or `POLLERR`; no step reads it.

## Main definitions

* `Sys`, `Act`, `step`, `init` — the server.
* `Sound` — the server is not in a `read` on a descriptor that has not been reported.
* `Careful` — the condition on a step.
* `Course` — a round in which the loop is on its way to an entry that `poll` has not seen.

## Main results

* `reads_reported` — **a run whose steps are careful is sound**, and a run up to a call of
  `Poll` is sound only if its steps are careful.
* `reads_reported_of_no_hangup` — every run is sound if `poll` does not report `POLLHUP`
  alone.
* `reads_unreported` — a run in which the server reads from a client that `poll` knows
  nothing of.
-/

namespace TcpIp.Select.PollTable

open Run Table

/-! ### The server -/

/-- The bits of `events` and `revents` that `poll` sets for an open descriptor that is watched
for `POLLRDNORM`. -/
structure Events where
  rdnorm : Bool
  err : Bool
  hup : Bool
  deriving DecidableEq, Repr

namespace Events

def zero : Events := ⟨false, false, false⟩

def pollrdnorm : Events := ⟨true, false, false⟩

/-- One of the bits of `POLLRDNORM | POLLERR`. -/
def ready (e : Events) : Bool := e.rdnorm || e.err

/-- One of the bits at all. -/
def nonzero (e : Events) : Bool := e.rdnorm || e.err || e.hup

theorem nonzero_of_ready {e : Events} (h : e.ready = true) : e.nonzero = true := by
  unfold nonzero
  rw [show (e.rdnorm || e.err) = true from h]
  rfl

end Events

/-- `struct pollfd`, with `none` for the descriptor `-1`. -/
structure Pollfd where
  fd : Option Fd
  events : Events
  revents : Events
  deriving DecidableEq, Repr

/-- Where the server is. -/
inductive Pc where
  /-- About to call `Poll`. -/
  | poll
  /-- In `Accept`. -/
  | accept
  /-- At the head of the loop over `client[]`. -/
  | scan (i : ℕ)
  /-- `client[i].fd` is `sockfd`: in `read`. -/
  | read (i : ℕ) (sockfd : Fd)
  /-- In `Writen`. -/
  | writen (i : ℕ) (sockfd : Fd)
  /-- Left through `err_sys` or `err_quit`. -/
  | exited
  deriving DecidableEq, Repr

structure Sys where
  pc : Pc
  maxi : ℕ
  nready : ℤ
  client : ℕ → Pollfd
  /-- The descriptors that the last `poll` has reported with `POLLRDNORM` or `POLLERR`. -/
  reported : Fd → Bool

inductive Act where
  /-- `poll` finds this. -/
  | poll (found : ℕ → Events)
  /-- `poll` fails. -/
  | pollFail
  /-- `accept` returns this descriptor. -/
  | accept (connfd : Fd)
  /-- `accept` fails. -/
  | acceptFail (e : Errno)
  /-- `read` returns some bytes. -/
  | read
  /-- `read` finds the end of file, or fails with `ECONNRESET`; `close` succeeds or fails. -/
  | eof (ok : Bool)
  /-- `read` fails otherwise. -/
  | readFail
  /-- `writen` succeeds or fails. -/
  | writen (ok : Bool)
  /-- The loop over `client[]` goes on. -/
  | tick

namespace Sys

/-- `err_sys` and `err_quit`. -/
def exit (s : Sys) : Sys := { s with pc := .exited }

/-- `if (--nready <= 0)` leave, or else go on at `i`. -/
def countDown (s : Sys) (i : ℕ) : Sys :=
  { s with nready := s.nready - 1, pc := if s.nready - 1 ≤ 0 then .poll else .scan i }

/-- An entry behind `poll`, which clears the `revents` of the entries that are not in use. -/
def found (c : Pollfd) (e : Events) : Pollfd :=
  { c with revents := if c.fd.isSome then e else .zero }

/-- `Poll` has returned. -/
def polled (s : Sys) (e : ℕ → Events) : Sys :=
  let client := fun i => if i ≤ s.maxi then found (s.client i) (e i) else s.client i
  { s with
    client
    nready := tally (fun c => c.revents.nonzero) client (s.maxi + 1)
    reported := fun fd =>
      decide (∃ i ≤ s.maxi, (client i).fd = some fd ∧ (client i).revents.ready = true)
    pc := if (client 0).revents.rdnorm then .accept else .scan 1 }

/-- The entry that a new connection gets. -/
def free (openMax : ℕ) (s : Sys) : Option ℕ :=
  (first (fun c => c.fd.isNone) (fun i => s.client (i + 1)) (openMax - 1)).map (· + 1)

/-- `client[i].fd = connfd` and `client[i].events = POLLRDNORM`. -/
def enter (s : Sys) (i : ℕ) (connfd : Fd) : Sys :=
  { s with
    client := Function.update s.client i
      { s.client i with fd := some connfd, events := .pollrdnorm }
    maxi := max s.maxi i }

/-- `main` after `Accept` has returned `connfd`. -/
def accepted (openMax : ℕ) (s : Sys) (connfd : Fd) : Sys :=
  match s.free openMax with
  | none => s.exit
  | some i => (s.enter i connfd).countDown 1

/-- The release of an entry. -/
def drop (s : Sys) (i : ℕ) : Sys :=
  { s with client := Function.update s.client i { s.client i with fd := none } }

/-- The loop over `client[]`. -/
def tick (s : Sys) (i : ℕ) : Sys :=
  if i ≤ s.maxi then
    match (s.client i).fd with
    | none => { s with pc := .scan (i + 1) }
    | some sockfd =>
      { s with pc := if (s.client i).revents.ready then .read i sockfd else .scan (i + 1) }
  else { s with pc := .poll }

end Sys

/-- The transition function.  `poll` returns when it has found something.  It may report
`POLLRDNORM` where it has been asked to, and the other bits anywhere.  `accept` may return
any descriptor that is not in use. -/
def step (openMax : ℕ) (s : Sys) : Act → Option Sys
  | .poll found =>
    if s.pc = .poll ∧ (∀ i ≤ s.maxi, (s.client i).fd.isSome = true →
          (found i).rdnorm = true → (s.client i).events.rdnorm = true) ∧
        ∃ i ≤ s.maxi, (s.client i).fd.isSome = true ∧ (found i).nonzero = true then
      some (s.polled found)
    else none
  | .pollFail => if s.pc = .poll then some s.exit else none
  | .accept connfd =>
    if s.pc = .accept ∧ ∀ i ≤ s.maxi, (s.client i).fd ≠ some connfd then
      some (s.accepted openMax connfd)
    else none
  | .acceptFail e =>
    if s.pc = .accept then
      -- `Accept` calls `accept` again if the connection was aborted
      if e = .eproto ∨ e = .econnaborted then some s else some s.exit
    else none
  | .read =>
    match s.pc with
    | .read i sockfd => some { s with pc := .writen i sockfd }
    | _ => none
  | .eof ok =>
    match s.pc with
    | .read i _ => if ok then some ((s.drop i).countDown (i + 1)) else some s.exit
    | _ => none
  | .readFail =>
    match s.pc with
    | .read _ _ => some s.exit
    | _ => none
  | .writen ok =>
    match s.pc with
    | .writen i _ => if ok then some (s.countDown (i + 1)) else some s.exit
    | _ => none
  | .tick =>
    match s.pc with
    | .scan i => some (s.tick i)
    | _ => none

/-- The server as it enters its loop; `stack i` is what was in the `events` and the `revents`
of the entry `i`. -/
def init (listenfd : Fd) (stack : ℕ → Events × Events) : Sys where
  pc := .poll
  maxi := 0
  nready := 0
  client := fun i =>
    if i = 0 then ⟨some listenfd, .pollrdnorm, (stack 0).2⟩
    else ⟨none, (stack i).1, (stack i).2⟩
  reported := fun _ => false

/-- The server is not in a `read` on a descriptor that has not been reported. -/
def Sound (s : Sys) : Prop :=
  match s.pc with
  | .read _ sockfd => s.reported sockfd = true
  | _ => True

/-- **The condition on a step**: a connection does not get an entry behind those that `poll`
has been given with `POLLRDNORM` or `POLLERR` left in it, unless every entry that `poll` has
reported was reported with one of them. -/
def Careful (openMax : ℕ) (s : Sys) : Act → Prop
  | .accept _ => ∀ i ∈ s.free openMax, s.maxi < i → (s.client i).revents.ready = true →
      ∀ j ≤ s.maxi, (s.client j).revents.nonzero = true → (s.client j).revents.ready = true
  | _ => True

/-- What a step does. -/
inductive Next (openMax : ℕ) (s : Sys) : Act → Sys → Prop where
  | polled {found} (hpc : s.pc = .poll) : Next openMax s (.poll found) (s.polled found)
  | accepted {connfd} (hpc : s.pc = .accept)
      (hnew : ∀ i ≤ s.maxi, (s.client i).fd ≠ some connfd) :
      Next openMax s (.accept connfd) (s.accepted openMax connfd)
  | again {e} (hpc : s.pc = .accept) : Next openMax s (.acceptFail e) s
  | read {i sockfd} (hpc : s.pc = .read i sockfd) :
      Next openMax s .read { s with pc := .writen i sockfd }
  | closed {i sockfd ok} (hpc : s.pc = .read i sockfd) :
      Next openMax s (.eof ok) ((s.drop i).countDown (i + 1))
  | written {i sockfd ok} (hpc : s.pc = .writen i sockfd) :
      Next openMax s (.writen ok) (s.countDown (i + 1))
  | tick {i} (hpc : s.pc = .scan i) : Next openMax s .tick (s.tick i)
  | exit {a} (hpc : s.pc ≠ .exited) : Next openMax s a s.exit

/-- **There are no other steps.** -/
theorem next_of_step {openMax : ℕ} {s s' : Sys} {a : Act} (hs : step openMax s a = some s') :
    Next openMax s a s' := by
  cases a with
  | poll found =>
    simp only [step] at hs
    split at hs <;> cases hs
    next hguard => exact .polled hguard.1
  | pollFail =>
    simp only [step] at hs
    split at hs <;> cases hs
    next hpc => exact .exit (by rw [hpc]; simp)
  | accept connfd =>
    simp only [step] at hs
    split at hs <;> cases hs
    next hguard => exact .accepted hguard.1 hguard.2
  | acceptFail e =>
    simp only [step] at hs
    split at hs
    · next hpc =>
      split at hs <;> cases hs
      · exact .again hpc
      · exact .exit (by rw [hpc]; simp)
    · cases hs
  | read =>
    simp only [step] at hs
    split at hs <;> cases hs
    next hpc => exact .read hpc
  | eof ok =>
    simp only [step] at hs
    split at hs
    · next hpc =>
      split at hs <;> cases hs
      · exact .closed hpc
      · exact .exit (by rw [hpc]; simp)
    · cases hs
  | readFail =>
    simp only [step] at hs
    split at hs <;> cases hs
    next hpc => exact .exit (by rw [hpc]; simp)
  | writen ok =>
    simp only [step] at hs
    split at hs
    · next hpc =>
      split at hs <;> cases hs
      · exact .written hpc
      · exact .exit (by rw [hpc]; simp)
    · cases hs
  | tick =>
    simp only [step] at hs
    split at hs <;> cases hs
    next hpc => exact .tick hpc

theorem step_exited {openMax : ℕ} {s s' : Sys} {a : Act} (hpc : s.pc = .exited) :
    step openMax s a ≠ some s' := by
  intro hs
  cases next_of_step hs <;> simp_all

namespace Sys

variable {s : Sys} {i : ℕ}

@[simp] theorem revents_drop (s : Sys) (i j : ℕ) :
    ((s.drop i).client j).revents = (s.client j).revents := by
  rcases eq_or_ne j i with rfl | hne
  · simp [drop]
  · simp [drop, hne]

@[simp] theorem revents_enter (s : Sys) (i : ℕ) (connfd : Fd) (j : ℕ) :
    ((s.enter i connfd).client j).revents = (s.client j).revents := by
  rcases eq_or_ne j i with rfl | hne
  · simp [enter]
  · simp [enter, hne]

theorem fd_drop {j : ℕ} {fd : Fd} (h : ((s.drop i).client j).fd = some fd) :
    (s.client j).fd = some fd := by
  rcases eq_or_ne j i with rfl | hne
  · simp [drop] at h
  · simpa [drop, hne] using h

theorem pc_countDown_ne (s : Sys) (i : ℕ) : (s.countDown i).pc ≠ .accept := by
  simp only [countDown]
  split <;> simp

theorem pc_accepted_ne {openMax : ℕ} (s : Sys) (connfd : Fd) :
    (s.accepted openMax connfd).pc ≠ .accept := by
  unfold accepted
  split
  · simp [exit]
  · exact pc_countDown_ne _ _

theorem pc_tick_ne (s : Sys) (i : ℕ) : (s.tick i).pc ≠ .accept := by
  unfold tick
  split
  · split
    · simp
    · simp only
      split <;> simp
  · simp

@[simp] theorem client_tick (s : Sys) (i : ℕ) : (s.tick i).client = s.client := by
  unfold tick
  split
  · split <;> rfl
  · rfl

@[simp] theorem maxi_tick (s : Sys) (i : ℕ) : (s.tick i).maxi = s.maxi := by
  unfold tick
  split
  · split <;> rfl
  · rfl

theorem pc_polled (s : Sys) (e : ℕ → Events) : (s.polled e).pc =
    if ((s.polled e).client 0).revents.rdnorm then .accept else .scan 1 := rfl

/-- The entry is free, and there is none before it. -/
theorem free_eq_some {openMax : ℕ} (h : s.free openMax = some i) :
    0 < i ∧ (s.client i).fd = none ∧ ∀ j, 0 < j → j < i → (s.client j).fd ≠ none := by
  obtain ⟨k, hk, rfl⟩ := Option.map_eq_some_iff.mp h
  refine ⟨Nat.succ_pos k, Option.isNone_iff_eq_none.mp (first_eq_some hk).2, fun j hj hlt => ?_⟩
  obtain ⟨l, rfl⟩ : ∃ l, j = l + 1 := ⟨j - 1, by omega⟩
  have hused := of_lt_first hk (show l < k by omega)
  rw [ne_eq, ← Option.isNone_iff_eq_none, hused]
  simp

end Sys

/-! ### What `poll` leaves -/

/-- The first `n` entries, where they are in use and have one of the two bits, have been
reported so. -/
def Seen (s : Sys) (n : ℕ) : Prop :=
  ∀ j < n, ∀ fd, (s.client j).fd = some fd → (s.client j).revents.ready = true →
    s.reported fd = true

/-- What is true when a connection is accepted. -/
structure Returned (s : Sys) : Prop where
  listen : (s.client 0).revents.ready = true
  count : s.nready = tally (fun c => c.revents.nonzero) s.client (s.maxi + 1)
  cleared : ∀ j ≤ s.maxi, (s.client j).fd = none → (s.client j).revents.ready = false
  seen : Seen s (s.maxi + 1)
  known : ∀ fd, s.reported fd = true → ∃ j ≤ s.maxi, (s.client j).fd = some fd

/-- What is true in every run. -/
structure Inv (s : Sys) : Prop where
  above : ∀ i, s.maxi < i → (s.client i).fd = none
  returned : s.pc = .accept → Returned s

section Poll

variable {openMax : ℕ} {s s' : Sys} {a : Act}

theorem seen_polled (s : Sys) (e : ℕ → Events) : Seen (s.polled e) (s.maxi + 1) := by
  intro j hj fd hfd hready
  exact decide_eq_true ⟨j, Nat.le_of_lt_succ hj, hfd, hready⟩

theorem returned_polled {e : ℕ → Events} (h : (s.polled e).pc = .accept) :
    Returned (s.polled e) := by
  refine ⟨?_, rfl, fun j hj hfd => ?_, seen_polled s e, fun fd hfd => ?_⟩
  · rw [Sys.pc_polled] at h
    split at h
    · next hr => exact Bool.or_eq_true_iff.mpr (.inl hr)
    · cases h
  · have hj : j ≤ s.maxi := hj
    simp only [Sys.polled, if_pos hj, Sys.found] at hfd ⊢
    rw [hfd]
    rfl
  · obtain ⟨j, hj, hfd, -⟩ := of_decide_eq_true hfd
    exact ⟨j, hj, hfd⟩

theorem inv_init (listenfd : Fd) (stack : ℕ → Events × Events) : Inv (init listenfd stack) where
  above := by
    intro i hi
    have hne : i ≠ 0 := Nat.ne_of_gt hi
    simp [init, hne]
  returned := by
    intro h
    cases h

/-- A new connection gets an entry that `poll` has been given, or the one behind. -/
theorem Inv.free_le {i : ℕ} (h : Inv s) (hfree : s.free openMax = some i) : i ≤ s.maxi + 1 := by
  obtain ⟨-, -, hused⟩ := Sys.free_eq_some hfree
  by_contra hlt
  exact hused (s.maxi + 1) (Nat.succ_pos _) (by omega) (h.above _ (Nat.lt_succ_self _))

/-- How the server comes to `Accept`. -/
theorem step_pc_accept (hs : step openMax s a = some s') (hpc : s'.pc = .accept) :
    (∃ e, a = .poll e ∧ s' = s.polled e) ∨ s' = s := by
  cases next_of_step hs with
  | polled => exact .inl ⟨_, rfl, rfl⟩
  | accepted => exact absurd hpc (Sys.pc_accepted_ne s _)
  | again => exact .inr rfl
  | read => cases hpc
  | closed => exact absurd hpc (Sys.pc_countDown_ne _ _)
  | written => exact absurd hpc (Sys.pc_countDown_ne _ _)
  | tick => exact absurd hpc (Sys.pc_tick_ne _ _)
  | exit => cases hpc

/-- The entries behind the last one are not in use. -/
theorem above_step (h : ∀ i, s.maxi < i → (s.client i).fd = none)
    (hs : step openMax s a = some s') : ∀ i, s'.maxi < i → (s'.client i).fd = none := by
  cases next_of_step hs with
  | polled =>
    intro i hi
    have hlt : ¬i ≤ s.maxi := Nat.not_le_of_lt hi
    simpa [Sys.polled, hlt] using h i (Nat.lt_of_not_le hlt)
  | accepted =>
    unfold Sys.accepted
    split
    · exact h
    · next i _ =>
      intro j hj
      have hlt : max s.maxi i < j := hj
      have hne : j ≠ i := by omega
      simpa [Sys.countDown, Sys.enter, hne] using h j (by omega)
  | @closed i =>
    intro j hj
    rcases eq_or_ne j i with rfl | hne
    · simp [Sys.countDown, Sys.drop]
    · simpa [Sys.countDown, Sys.drop, hne] using h j hj
  | tick =>
    rw [Sys.maxi_tick, Sys.client_tick]
    exact h
  | again | read | written | exit => exact h

/-- **The invariant is kept.** -/
theorem inv_step (h : Inv s) (hs : step openMax s a = some s') : Inv s' := by
  refine ⟨above_step h.above hs, fun hpc => ?_⟩
  rcases step_pc_accept hs hpc with ⟨e, -, rfl⟩ | rfl
  · exact returned_polled hpc
  · exact h.returned hpc

end Poll

/-! ### A round -/

/-- How many entries the last `poll` has reported that are not to be served, when the last
entry is not one of those it has been given. -/
def Sys.idle (s : Sys) : ℤ :=
  tally (fun c => c.revents.nonzero) s.client s.maxi -
    tally (fun c => c.revents.ready) s.client s.maxi

/-- The last entry is one that `poll` has not been given, and that has one of the two bits
all the same.  The entries before `i` have been passed. -/
structure Fresh (s : Sys) (i : ℕ) : Prop where
  new : ∃ connfd, (s.client s.maxi).fd = some connfd ∧ s.reported connfd = false
  ready : (s.client s.maxi).revents.ready = true
  seen : Seen s s.maxi
  cleared : ∀ j, i ≤ j → j < s.maxi → (s.client j).fd = none → (s.client j).revents.ready = false
  count : s.nready = tally (fun c => c.revents.nonzero) s.client s.maxi -
    tally (fun c => c.revents.ready) s.client i

/-- The loop is on its way to such an entry. -/
def Course (s : Sys) : Prop :=
  match s.pc with
  | .scan i => Fresh s i ∧ i ≤ s.maxi ∧ 0 < s.nready
  | .read i _ => Fresh s i ∧ i < s.maxi ∧ (s.client i).revents.ready = true
  | .writen i _ => Fresh s i ∧ i < s.maxi ∧ (s.client i).revents.ready = true
  | _ => False

section Round

variable {openMax : ℕ} {s s' : Sys} {a : Act} {i : ℕ}

/-- Every entry that was reported is to be served exactly if none is idle. -/
theorem idle_eq_zero_iff : 0 ≤ s.idle ∧ (s.idle = 0 ↔ ∀ j < s.maxi,
    (s.client j).revents.nonzero = true → (s.client j).revents.ready = true) := by
  obtain ⟨hle, hiff⟩ := tally_le_tally (p := fun c : Pollfd => c.revents.ready)
    (q := fun c => c.revents.nonzero) (f := s.client) (n := s.maxi)
    fun _ _ => Events.nonzero_of_ready
  unfold Sys.idle
  refine ⟨by omega, ?_⟩
  rw [← hiff]
  omega

/-- The loop has not done with `nready` before it is at the entry. -/
theorem Fresh.idle_le (h : Fresh s i) (hi : i ≤ s.maxi) : s.idle ≤ s.nready := by
  have hle := tally_le_of_le (p := fun c : Pollfd => c.revents.ready) (f := s.client) hi
  rw [h.count, Sys.idle]
  omega

/-- It is done with it there if nothing is idle. -/
theorem Fresh.nready_eq (h : Fresh s s.maxi) : s.nready = s.idle := h.count

theorem sound_countDown (s : Sys) (i : ℕ) : Sound (s.countDown i) := by
  unfold Sound
  split
  · next hpc =>
    simp only [Sys.countDown] at hpc
    split at hpc <;> cases hpc
  · trivial

theorem idle_tick (s : Sys) (i : ℕ) : (s.tick i).idle = s.idle := by
  simp only [Sys.idle, Sys.client_tick, Sys.maxi_tick]

/-- `nready` has been counted down. -/
theorem Fresh.countDown (h : Fresh (s.countDown i) i) (hi : i ≤ s.maxi) :
    (s.countDown i).pc = .poll ∧ (s.countDown i).idle = 0 ∨ Course (s.countDown i) := by
  by_cases hdone : s.nready - 1 ≤ 0
  · left
    have hle : (s.countDown i).idle ≤ s.nready - 1 := h.idle_le hi
    have hnonneg := (idle_eq_zero_iff (s := s.countDown i)).1
    refine ⟨if_pos hdone, by omega⟩
  · right
    have hpc : (s.countDown i).pc = .scan i := if_neg hdone
    unfold Course
    rw [hpc]
    exact ⟨h, hi, Int.lt_of_not_ge hdone⟩

theorem Fresh.goto (h : Fresh s i) (pc : Pc) : Fresh { s with pc } i :=
  ⟨h.new, h.ready, h.seen, h.cleared, h.count⟩

/-- An entry has been passed over. -/
theorem Fresh.pass (h : Fresh s i) (hnot : (s.client i).revents.ready = false) :
    Fresh s (i + 1) := by
  refine ⟨h.new, h.ready, h.seen, fun j hj => h.cleared j (by omega), ?_⟩
  rw [h.count, tally_succ, hnot]
  simp

/-- An entry has been served. -/
theorem Fresh.serve (h : Fresh s i) (hready : (s.client i).revents.ready = true) :
    Fresh (s.countDown (i + 1)) (i + 1) := by
  refine ⟨h.new, h.ready, h.seen, fun j hj => h.cleared j (by omega), ?_⟩
  simp only [Sys.countDown, tally_succ, hready, h.count, Bool.toNat_true]
  omega

/-- An entry has been served and released. -/
theorem Fresh.release (h : Fresh s i) (hi : i < s.maxi)
    (hready : (s.client i).revents.ready = true) :
    Fresh ((s.drop i).countDown (i + 1)) (i + 1) ∧
      ((s.drop i).countDown (i + 1)).idle = s.idle := by
  have htally (p : Events → Bool) (n : ℕ) :
      tally (fun c => p c.revents) (s.drop i).client n = tally (fun c => p c.revents) s.client n :=
    tally_congr fun j _ => congrArg p (Sys.revents_drop s i j)
  refine ⟨⟨?_, ?_, fun j hj fd hfd hr => ?_, fun j hj hlt hfd => ?_, ?_⟩, ?_⟩
  · obtain ⟨connfd, hfd, hnot⟩ := h.new
    refine ⟨connfd, ?_, hnot⟩
    simpa [Sys.countDown, Sys.drop, Nat.ne_of_gt hi] using hfd
  · exact (congrArg Events.ready (Sys.revents_drop s i s.maxi)).trans h.ready
  · simp only [Sys.countDown, Sys.revents_drop] at hr
    exact h.seen j hj fd (Sys.fd_drop hfd) hr
  · have hne : j ≠ i := by omega
    simp only [Sys.countDown, Sys.drop, Function.update_of_ne hne] at hfd ⊢
    exact h.cleared j (by omega) hlt hfd
  · have hcount := h.count
    simp only [Sys.countDown, tally_succ, Sys.revents_drop, hready, Bool.toNat_true,
      htally Events.ready, htally Events.nonzero]
    simp only [Sys.drop]
    omega
  · simp only [Sys.idle, Sys.countDown, htally Events.ready, htally Events.nonzero]
    simp only [Sys.drop]

/-- The loop goes on. -/
theorem Fresh.tick (h : Fresh s i) (hi : i ≤ s.maxi) (hpos : 0 < s.nready) :
    Course (s.tick i) ∧ Sound (s.tick i) ∨ ¬Sound (s.tick i) ∧ 0 < s.idle := by
  rcases Nat.lt_or_eq_of_le hi with hlt | rfl
  · left
    unfold Sys.tick
    rw [if_pos hi]
    cases hfd : (s.client i).fd with
    | none =>
      have hnot := h.cleared i (Nat.le_refl i) hlt hfd
      exact ⟨⟨(h.pass hnot).goto _, hlt, hpos⟩, trivial⟩
    | some sockfd =>
      cases hready : (s.client i).revents.ready with
      | true => exact ⟨⟨h.goto _, hlt, hready⟩, h.seen i hlt sockfd hfd hready⟩
      | false => exact ⟨⟨(h.pass hready).goto _, hlt, hpos⟩, trivial⟩
  · -- the entry that `poll` has not been given
    right
    obtain ⟨connfd, hfd, hnot⟩ := h.new
    refine ⟨?_, h.nready_eq ▸ hpos⟩
    unfold Sys.tick
    simp only [hfd, h.ready, Nat.le_refl, if_true, Sound, hnot]
    simp

/-- **What becomes of such a round**: `nready` comes to nothing, in time, if nothing is idle,
and else the new client is read from. -/
theorem course_step (h : Course s) (hs : step openMax s a = some s') :
    s'.pc = .exited ∨ (s'.pc = .poll ∧ s.idle = 0) ∨ (Course s' ∧ Sound s' ∧ s'.idle = s.idle) ∨
      (¬Sound s' ∧ 0 < s.idle) := by
  cases next_of_step hs with
  | @tick i hpc =>
    simp only [Course, hpc] at h
    obtain ⟨hfresh, hi, hpos⟩ := h
    rcases hfresh.tick hi hpos with ⟨hcourse, hsound⟩ | hstray
    · exact .inr (.inr (.inl ⟨hcourse, hsound, idle_tick s i⟩))
    · exact .inr (.inr (.inr hstray))
  | read hpc =>
    simp only [Course, hpc] at h
    obtain ⟨hfresh, hi, hready⟩ := h
    exact .inr (.inr (.inl ⟨⟨hfresh.goto _, hi, hready⟩, trivial, rfl⟩))
  | closed hpc =>
    simp only [Course, hpc] at h
    obtain ⟨hfresh, hi, hready⟩ := h
    obtain ⟨hserved, hidle⟩ := hfresh.release hi hready
    rw [← hidle]
    refine .inr ((hserved.countDown hi).imp_right fun hcourse => ?_)
    exact .inl ⟨hcourse, sound_countDown _ _, rfl⟩
  | written hpc =>
    simp only [Course, hpc] at h
    obtain ⟨hfresh, hi, hready⟩ := h
    refine .inr (((hfresh.serve hready).countDown hi).imp_right fun hcourse => ?_)
    exact .inl ⟨hcourse, sound_countDown _ _, rfl⟩
  | exit => exact .inl rfl
  | polled hpc | accepted hpc | again hpc => simp only [Course, hpc] at h

/-! ### A new connection -/

/-- A new connection gets the entry behind those that `poll` has been given, and that entry
has one of the two bits. -/
theorem Returned.fresh {connfd : Fd} (h : Returned s)
    (hnew : ∀ j ≤ s.maxi, (s.client j).fd ≠ some connfd)
    (hready : (s.client (s.maxi + 1)).revents.ready = true) :
    Fresh ((s.enter (s.maxi + 1) connfd).countDown 1) 1 ∧
      (((s.enter (s.maxi + 1) connfd).countDown 1).idle = 0 ↔ ∀ j ≤ s.maxi,
        (s.client j).revents.nonzero = true → (s.client j).revents.ready = true) := by
  have hmaxi : (s.enter (s.maxi + 1) connfd).maxi = s.maxi + 1 :=
    Nat.max_eq_right (Nat.le_succ _)
  have htally (p : Events → Bool) (n : ℕ) :
      tally (fun c => p c.revents) (s.enter (s.maxi + 1) connfd).client n =
        tally (fun c => p c.revents) s.client n :=
    tally_congr fun j _ => congrArg p (Sys.revents_enter s (s.maxi + 1) connfd j)
  have hold : ∀ j < s.maxi + 1,
      ((s.enter (s.maxi + 1) connfd).client j).fd = (s.client j).fd := by
    intro j hj
    simp [Sys.enter, Nat.ne_of_lt hj]
  refine ⟨⟨?_, ?_, ?_, ?_, ?_⟩, ?_⟩
  · refine ⟨connfd, ?_, ?_⟩
    · simp [Sys.countDown, Sys.enter]
    · -- the descriptors that were reported are in use
      rw [Bool.eq_false_iff]
      intro hrep
      obtain ⟨j, hj, hfd⟩ := h.known connfd hrep
      exact hnew j hj hfd
  · simpa [Sys.countDown, hmaxi] using hready
  · intro j hj fd hfd hr
    simp only [Sys.countDown, hmaxi, Sys.revents_enter] at hj hfd hr
    rw [hold j hj] at hfd
    exact h.seen j hj fd hfd hr
  · intro j _ hj hfd
    simp only [Sys.countDown, hmaxi, Sys.revents_enter] at hj hfd ⊢
    rw [hold j hj] at hfd
    exact h.cleared j (Nat.le_of_lt_succ hj) hfd
  · simp only [Sys.countDown, hmaxi, htally Events.ready, htally Events.nonzero]
    simp only [Sys.enter, h.count, tally_succ, tally_zero, h.listen]
    rfl
  · rw [idle_eq_zero_iff.2]
    simp only [Sys.countDown, hmaxi, Sys.revents_enter, Nat.lt_succ_iff]

/-! ### Careful runs -/

/-- What is true in a careful run. -/
structure Good (s : Sys) : Prop where
  sound : Sound s
  round : s.pc = .poll ∨ s.pc = .accept ∨ s.pc = .exited ∨
    Seen s (s.maxi + 1) ∨ (Course s ∧ s.idle = 0)

theorem good_exit (s : Sys) : Good s.exit := ⟨trivial, .inr (.inr (.inl rfl))⟩

theorem good_countDown (h : Seen s (s.maxi + 1)) (i : ℕ) : Good (s.countDown i) :=
  ⟨sound_countDown s i, .inr (.inr (.inr (.inl h)))⟩

theorem seen_drop (h : Seen s (s.maxi + 1)) (i : ℕ) : Seen (s.drop i) (s.maxi + 1) := by
  intro j hj fd hfd hr
  rw [Sys.revents_drop] at hr
  exact h j hj fd (Sys.fd_drop hfd) hr

theorem good_tick (h : Seen s (s.maxi + 1)) (i : ℕ) : Good (s.tick i) := by
  unfold Sys.tick
  split
  · next hi =>
    cases hfd : (s.client i).fd with
    | none => exact ⟨trivial, .inr (.inr (.inr (.inl h)))⟩
    | some sockfd =>
      refine ⟨?_, .inr (.inr (.inr (.inl h)))⟩
      cases hready : (s.client i).revents.ready with
      | true => exact h i (Nat.lt_succ_of_le hi) sockfd hfd hready
      | false => trivial
  · exact ⟨trivial, .inl rfl⟩

/-- The entry of a new connection has neither of the two bits. -/
theorem seen_enter {connfd : Fd} (h : Seen s (s.maxi + 1)) (hi : i ≤ s.maxi + 1)
    (hnot : (s.client i).revents.ready = false) :
    Seen (s.enter i connfd) ((s.enter i connfd).maxi + 1) := by
  intro j hj fd hfd hr
  rw [Sys.revents_enter] at hr
  rcases eq_or_ne j i with rfl | hne
  · rw [hnot] at hr
    cases hr
  · have hj : j < max s.maxi i + 1 := hj
    simp only [Sys.enter, Function.update_of_ne hne] at hfd
    exact h j (by omega) fd hfd hr

theorem good_accepted {connfd : Fd} (hinv : Inv s) (hpc : s.pc = .accept)
    (hnew : ∀ j ≤ s.maxi, (s.client j).fd ≠ some connfd) (hc : Careful openMax s (.accept connfd)) :
    Good (s.accepted openMax connfd) := by
  have hret := hinv.returned hpc
  unfold Sys.accepted
  cases hfree : s.free openMax with
  | none => exact good_exit s
  | some i =>
    have hle := hinv.free_le hfree
    cases hready : (s.client i).revents.ready with
    | false => exact good_countDown (seen_enter hret.seen hle hready) 1
    | true =>
      -- `poll` clears the entries that are not in use, so this one is behind them
      have hlt : s.maxi < i := by
        by_contra hi
        rw [hret.cleared i (by omega) (Sys.free_eq_some hfree).2.1] at hready
        cases hready
      obtain rfl : i = s.maxi + 1 := by omega
      obtain ⟨hfresh, hidle⟩ := hret.fresh hnew hready
      have hzero := hidle.mpr (hc _ hfree hlt hready)
      refine ⟨sound_countDown _ 1, ?_⟩
      rcases hfresh.countDown (Nat.le_trans (Nat.succ_pos _) (Nat.le_max_right ..)) with
        hpoll | hcourse
      · exact .inl hpoll.1
      · exact .inr (.inr (.inr (.inr ⟨hcourse, hzero⟩)))

theorem good_polled (s : Sys) (e : ℕ → Events) : Good (s.polled e) := by
  refine ⟨?_, .inr (.inr (.inr (.inl (seen_polled s e))))⟩
  unfold Sound
  rw [Sys.pc_polled]
  cases ((s.polled e).client 0).revents.rdnorm <;> trivial

/-- A step outside of a round, or in one in which every entry has been reported. -/
theorem seen_step (h : s.pc = .poll ∨ s.pc = .accept ∨ Seen s (s.maxi + 1)) (hinv : Inv s)
    (hc : Careful openMax s a) (hs : step openMax s a = some s') : Good s' := by
  have hseen (hpoll : s.pc ≠ .poll) (haccept : s.pc ≠ .accept) : Seen s (s.maxi + 1) :=
    (h.resolve_left hpoll).resolve_left haccept
  cases next_of_step hs with
  | polled => exact good_polled s _
  | accepted hpc hnew => exact good_accepted hinv hpc hnew hc
  | again hpc => exact ⟨by simp only [Sound, hpc], .inr (.inl hpc)⟩
  | read hpc => exact ⟨trivial, .inr (.inr (.inr (.inl (hseen (by simp [hpc]) (by simp [hpc])))))⟩
  | closed hpc => exact good_countDown (seen_drop (hseen (by simp [hpc]) (by simp [hpc])) _) _
  | written hpc => exact good_countDown (hseen (by simp [hpc]) (by simp [hpc])) _
  | tick hpc => exact good_tick (hseen (by simp [hpc]) (by simp [hpc])) _
  | exit => exact good_exit s

/-- A step on the way to an entry that `poll` has not seen, if nothing is idle. -/
theorem good_of_course (h : Course s) (hzero : s.idle = 0) (hs : step openMax s a = some s') :
    Good s' := by
  rcases course_step h hs with hexit | ⟨hpoll, -⟩ | ⟨hcourse, hsound, hidle⟩ | hstray
  · exact ⟨by simp only [Sound, hexit], .inr (.inr (.inl hexit))⟩
  · exact ⟨by simp only [Sound, hpoll], .inl hpoll⟩
  · exact ⟨hsound, .inr (.inr (.inr (.inr ⟨hcourse, hidle.trans hzero⟩)))⟩
  · exact absurd hzero (Int.ne_of_gt hstray.2)

/-- **A careful step.** -/
theorem good_step (hinv : Inv s) (h : Good s) (hc : Careful openMax s a)
    (hs : step openMax s a = some s') : Good s' := by
  rcases h.round with hpc | hpc | hpc | hseen | ⟨hcourse, hzero⟩
  · exact seen_step (.inl hpc) hinv hc hs
  · exact seen_step (.inr (.inl hpc)) hinv hc hs
  · exact absurd hs (step_exited hpc)
  · exact seen_step (.inr (.inr hseen)) hinv hc hs
  · exact good_of_course hcourse hzero hs

/-! ### Careless runs -/

/-- A connection that is not accepted carefully. -/
theorem course_of_not_careful (hinv : Inv s) (hc : ¬Careful openMax s a)
    (hs : step openMax s a = some s') : Course s' ∧ 0 < s'.idle := by
  cases a with
  | accept connfd =>
    simp only [Careful] at hc
    push Not at hc
    obtain ⟨i, hfree, hlt, hready, hidle⟩ := hc
    obtain rfl : i = s.maxi + 1 := Nat.le_antisymm (hinv.free_le hfree) hlt
    simp only [step] at hs
    split at hs <;> cases hs
    next hguard =>
      obtain ⟨hfresh, hiff⟩ := (hinv.returned hguard.1).fresh hguard.2 hready
      have hne : ((s.enter (s.maxi + 1) connfd).countDown 1).idle ≠ 0 := by
        intro hzero
        obtain ⟨j, hj, hnonzero, hnot⟩ := hidle
        exact hnot (hiff.mp hzero j hj hnonzero)
      have hpos : 0 < ((s.enter (s.maxi + 1) connfd).countDown 1).idle := by
        have hnonneg := (idle_eq_zero_iff (s := (s.enter (s.maxi + 1) connfd).countDown 1)).1
        omega
      have haccepted : s.accepted openMax connfd =
          (s.enter (s.maxi + 1) connfd).countDown 1 := by
        unfold Sys.accepted
        rw [hfree]
      rw [haccepted]
      refine ⟨?_, hpos⟩
      rcases hfresh.countDown (Nat.le_trans (Nat.succ_pos _) (Nat.le_max_right ..)) with
        ⟨-, hzero⟩ | hcourse
      · exact absurd hzero hne
      · exact hcourse
  | _ => exact absurd trivial hc

/-- The run goes on to a `read` on the new client, unless the server exits before. -/
theorem stray_of_course : ∀ (as : List Act) (s s' : Sys), Course s → 0 < s.idle →
    exec (step openMax) s as = some s' → s'.pc = .poll →
    ¬Along (step openMax) (fun s _ => Sound s) s as := by
  intro as
  induction as with
  | nil =>
    intro s s' hcourse _ hs hpc
    cases hs
    simp only [Course, hpc] at hcourse
  | cons a as ih =>
    intro s s' hcourse hidle hs hpc halong
    obtain ⟨t, ht, htail⟩ := exec_cons_eq_some.mp hs
    have hrest := halong.2 t ht
    rcases course_step hcourse ht with hexit | ⟨-, hzero⟩ | ⟨hcourse', -, hidle'⟩ | ⟨hstray, -⟩
    · cases as with
      | nil =>
        cases htail
        rw [hexit] at hpc
        cases hpc
      | cons b bs =>
        obtain ⟨u, hu, -⟩ := exec_cons_eq_some.mp htail
        exact step_exited hexit hu
    · exact absurd hzero (Int.ne_of_gt hidle)
    · exact ih t s' hcourse' (hidle' ▸ hidle) htail hpc hrest
    · cases as with
      | nil =>
        cases htail
        exact hstray (by simp only [Sound, hpc])
      | cons b bs => exact hstray hrest.1

/-- A sound run is a careful one. -/
theorem careful_of_sound : ∀ (as : List Act) (s s' : Sys), Inv s →
    exec (step openMax) s as = some s' → s'.pc = .poll →
    Along (step openMax) (fun s _ => Sound s) s as →
    Along (step openMax) (Careful openMax) s as := by
  intro as
  induction as with
  | nil => intro s s' _ _ _ _; trivial
  | cons a as ih =>
    intro s s' hinv hs hpc halong
    obtain ⟨t, ht, htail⟩ := exec_cons_eq_some.mp hs
    have hrest := halong.2 t ht
    rw [along_cons ht]
    refine ⟨?_, ih t s' (inv_step hinv ht) htail hpc hrest⟩
    by_contra hc
    obtain ⟨hcourse, hidle⟩ := course_of_not_careful hinv hc ht
    exact stray_of_course as t s' hcourse hidle htail hpc hrest

/-! ### A `poll` without hangups -/

/-- `poll` does not report `POLLHUP` alone. -/
def NoHangup : Act → Prop
  | .poll found => ∀ i, (found i).nonzero = true → (found i).ready = true
  | _ => True

/-- Every entry that has been reported is to be served. -/
theorem served_step
    (h : s.pc = .accept → ∀ j ≤ s.maxi,
      (s.client j).revents.nonzero = true → (s.client j).revents.ready = true)
    (ha : NoHangup a) (hs : step openMax s a = some s') :
    s'.pc = .accept → ∀ j ≤ s'.maxi,
      (s'.client j).revents.nonzero = true → (s'.client j).revents.ready = true := by
  intro hpc
  rcases step_pc_accept hs hpc with ⟨e, rfl, rfl⟩ | rfl
  · intro j hj hnonzero
    have hj : j ≤ s.maxi := hj
    simp only [Sys.polled, if_pos hj, Sys.found] at hnonzero ⊢
    split at hnonzero
    · next hsome =>
      rw [if_pos hsome]
      exact ha j hnonzero
    · cases hnonzero
  · exact h hpc

end Round

/-! ### Every run -/

section Runs

variable {openMax : ℕ} {listenfd : Fd} {stack : ℕ → Events × Events} {as : List Act} {s : Sys}

/-- What is careful is sound. -/
theorem sound_of_careful (hs : exec (step openMax) (init listenfd stack) as = some s)
    (hcareful : Along (step openMax) (Careful openMax) (init listenfd stack) as) :
    Along (step openMax) (fun s _ => Sound s) (init listenfd stack) as ∧ Sound s := by
  have hinit : Inv (init listenfd stack) ∧ Good (init listenfd stack) :=
    ⟨inv_init listenfd stack, trivial, .inl rfl⟩
  have hkeep : ∀ s a s', Inv s ∧ Good s → Careful openMax s a → step openMax s a = some s' →
      Inv s' ∧ Good s' :=
    fun _ _ _ h hc hs => ⟨inv_step h.1 hs, good_step h.1 h.2 hc hs⟩
  refine ⟨?_, (exec_invariant_along hkeep as _ s hinit hcareful hs).2.sound⟩
  exact along_of_invariant hkeep (fun _ _ _ h _ _ => h.2.sound) as _ s hinit hcareful hs

/-- **Every run of a `poll` without hangups is careful.** -/
theorem careful_of_no_hangup (hs : exec (step openMax) (init listenfd stack) as = some s)
    (hno : ∀ a ∈ as, NoHangup a) :
    Along (step openMax) (Careful openMax) (init listenfd stack) as := by
  refine along_of_invariant (P := fun _ a => NoHangup a) (fun _ _ _ h ha hs => served_step h ha hs)
    (fun s a s' h _ hs => ?_) as _ s (fun h => by cases h)
    (along_of_forall as _ fun a ha _ => hno a ha) hs
  cases a with
  | accept connfd =>
    simp only [step] at hs
    split at hs <;> cases hs
    next hguard => exact fun _ _ _ _ => h hguard.1
  | _ => trivial

/-- **The server reads from descriptors that `poll` has reported**, whatever was on the stack,
if `poll` does not report `POLLHUP` alone. -/
theorem reads_reported_of_no_hangup (hs : exec (step openMax) (init listenfd stack) as = some s)
    (hno : ∀ a ∈ as, NoHangup a) :
    Along (step openMax) (fun s _ => Sound s) (init listenfd stack) as ∧ Sound s :=
  sound_of_careful hs (careful_of_no_hangup hs hno)

/-- **The server reads from descriptors that `poll` has reported in the careful runs**,
whatever was on the stack: a run whose steps are careful is sound throughout, and a run that
has come back to `Poll` was sound throughout only if its steps were careful. -/
theorem reads_reported (hs : exec (step openMax) (init listenfd stack) as = some s) :
    (Along (step openMax) (Careful openMax) (init listenfd stack) as →
      Along (step openMax) (fun s _ => Sound s) (init listenfd stack) as ∧ Sound s) ∧
    (s.pc = .poll → Along (step openMax) (fun s _ => Sound s) (init listenfd stack) as →
      Along (step openMax) (Careful openMax) (init listenfd stack) as) :=
  ⟨sound_of_careful hs, careful_of_sound as _ s (inv_init listenfd stack) hs⟩

end Runs

/-- `poll` reports `e` for the listening socket and `e'` for the first client. -/
def finds (e e' : Events) (i : ℕ) : Events := if i = 0 then e else if i = 1 then e' else .zero

theorem noHangup_finds {e e' : Events} (he : e.nonzero = true → e.ready = true)
    (he' : e'.nonzero = true → e'.ready = true) : NoHangup (.poll (finds e e')) := by
  intro i
  unfold finds
  split
  · exact he
  · split
    · exact he'
    · simp [Events.zero, Events.nonzero]

/-- A client connects, and another one when the first has sent something. -/
def plainRun : List Act :=
  [.poll (finds .pollrdnorm .zero), .accept 4, .poll (finds .pollrdnorm .pollrdnorm), .accept 5,
    .tick, .read, .writen true]

/-- Every bit was on the stack. -/
def dirty (_ : ℕ) : Events × Events := (⟨true, true, true⟩, ⟨true, true, true⟩)

theorem reads_reported_plainRun : ∃ s,
    exec (step 256) (init 3 dirty) plainRun = some s ∧ s.pc = .poll ∧ s.maxi = 2 ∧
      Along (step 256) (fun s _ => Sound s) (init 3 dirty) plainRun ∧ Sound s := by
  obtain ⟨s, hs, hpc, hmaxi⟩ : ∃ s, exec (step 256) (init 3 dirty) plainRun = some s ∧
      s.pc = .poll ∧ s.maxi = 2 := by
    obtain ⟨s, hs, heq⟩ := Option.map_eq_some_iff.mp
      (show (exec (step 256) (init 3 dirty) plainRun).map (fun s => (s.pc, s.maxi)) =
        some (.poll, 2) by decide)
    exact ⟨s, hs, congrArg Prod.fst heq, congrArg Prod.snd heq⟩
  refine ⟨s, hs, hpc, hmaxi, (reads_reported hs).1 (careful_of_no_hangup hs ?_)⟩
  simp only [plainRun, List.forall_mem_cons]
  exact ⟨noHangup_finds (by decide) (by decide), trivial, noHangup_finds (by decide) (by decide),
    trivial, trivial, trivial, trivial, by simp⟩

/-- A client connects.  `poll` reports another one together with `POLLHUP` for the first. -/
def hangupRun : List Act :=
  [.poll (finds .pollrdnorm .zero), .accept 4, .poll (finds .pollrdnorm ⟨false, false, true⟩),
    .accept 5, .tick, .tick]

/-- **The server reads from a client that `poll` knows nothing of.**  The entry of the second
client has the bits that were on the stack, and the first client is counted in `nready` and
not served. -/
theorem reads_unreported : ∃ s, exec (step 256) (init 3 dirty) hangupRun = some s ∧
    s.pc = .read 2 5 ∧ s.reported 5 = false ∧ ¬Sound s := by
  obtain ⟨s, hs, heq⟩ := Option.map_eq_some_iff.mp
    (show (exec (step 256) (init 3 dirty) hangupRun).map (fun s => (s.pc, s.reported 5)) =
      some (.read 2 5, false) by decide)
  have hpc : s.pc = .read 2 5 := congrArg Prod.fst heq
  have hnot : s.reported 5 = false := congrArg Prod.snd heq
  refine ⟨s, hs, hpc, hnot, ?_⟩
  simp only [Sound, hpc, hnot, Bool.false_eq_true, not_false_eq_true]

end TcpIp.Select.PollTable
