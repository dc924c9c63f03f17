import Mathlib.Data.List.Perm.Basic
import TcpIp.Lib.Bounded

/-!
# The children of the echo server

`tcpserv01.c` to `tcpserv04.c` fork a child for each connection.  A child that has exited stays a
zombie until its parent waits for it.  The parent is told by `SIGCHLD`, but signals are not queued:
however many children exit while the signal is pending, the handler is called once.

The handler runs between two steps of the server, or while the server sleeps in `accept`; unless the
system restarts `accept`, it then returns with `EINTR`.  While the handler runs the signal is
blocked.

## Main definitions

* `Version`, `tcpserv01` to `tcpserv04` — the servers with their handlers.
* `Sys`, `Act`, `step`, `init` — a server with its children.
* `coalesced` — the children that exit while the signal is pending already.

## Main results

* `printed_perm` — **with `waitpid` each child that has exited is reported exactly once.**
* `zombies_eq` — **with `wait` the children that are coalesced stay zombies.**
* `handler_returns` — neither handler ever blocks.
* `exits_iff` — which servers exit although no call has failed.
-/

namespace TcpIp.Reap

open Run

/-! ### The servers -/

/-- What `sig_chld` does. -/
inductive Handler where
  /-- There is none, and the signal is ignored. -/
  | ignore
  /-- `sigchldwait.c` -/
  | wait
  /-- `sigchldwaitpid.c` -/
  | waitpid
  deriving DecidableEq, Repr

/-- What sets the servers apart. -/
structure Version where
  handler : Handler
  /-- `accept` itself is called, and once more when it fails with `EINTR`.  Otherwise it is called
  through `Accept`, and once more when it fails with `ECONNABORTED` or `EPROTO`. -/
  retry : Bool
  deriving DecidableEq, Repr

def tcpserv01 : Version := ⟨.ignore, false⟩
def tcpserv02 : Version := ⟨.wait, false⟩
def tcpserv03 : Version := ⟨.wait, true⟩
def tcpserv04 : Version := ⟨.waitpid, true⟩

/-- Where the server is. -/
inductive Pc where
  | accept
  /-- `accept` has been interrupted. -/
  | eintr
  | fork | close
  /-- Left through `err_sys`. -/
  | exited
  deriving DecidableEq, Repr

/-- Where the handler is. -/
inductive HandlerPc where
  | idle
  /-- About to call `wait` or `waitpid`. -/
  | call
  /-- About to print what has been returned, `none` for `-1`. -/
  | printf (pid : Option ℕ)
  deriving DecidableEq, Repr

/-- A server with its children. -/
structure Sys where
  pc : Pc
  sig : HandlerPc
  /-- `SIGCHLD` has been generated and not been delivered. -/
  pending : Bool
  /-- The children that run. -/
  live : List ℕ
  zombies : List ℕ
  /-- The children that have been waited for, the last one first. -/
  reaped : List ℕ
  /-- What has been printed, the last line first. -/
  printed : List (Option ℕ)
  /-- The number of the next child. -/
  next : ℕ
  deriving DecidableEq, Repr

inductive Act where
  /-- A connection is accepted. -/
  | accept
  /-- `accept` fails with `ECONNABORTED` or `EPROTO`. -/
  | aborted
  /-- `accept` fails otherwise. -/
  | acceptFails
  /-- The server looks at `EINTR`. -/
  | test
  | fork | forkFails
  | close
  /-- A child exits. -/
  | exit (i : ℕ)
  /-- The signal is delivered; `accept` is interrupted, or not. -/
  | deliver (interrupts : Bool)
  /-- `wait` or `waitpid` returns a child. -/
  | reap (i : ℕ)
  /-- It returns without one. -/
  | none
  | printf
  deriving DecidableEq, Repr

variable (v : Version) (restart : Bool)

/-- Behind the line that the handler prints. -/
def Handler.next : Handler → HandlerPc
  | .waitpid => .call
  | _ => .idle

def step (s : Sys) : Act → Option Sys
  | .accept =>
    if s.pc = .accept ∧ s.sig = .idle then some { s with pc := .fork } else none
  | .aborted =>
    if s.pc = .accept ∧ s.sig = .idle then
      some { s with pc := if v.retry then .exited else .accept }
    else none
  | .acceptFails =>
    if s.pc = .accept ∧ s.sig = .idle then some { s with pc := .exited } else none
  | .test =>
    if s.pc = .eintr ∧ s.sig = .idle then
      some { s with pc := if v.retry then .accept else .exited }
    else none
  | .fork =>
    if s.pc = .fork ∧ s.sig = .idle then
      some { s with pc := .close, live := s.next :: s.live, next := s.next + 1 }
    else none
  | .forkFails =>
    if s.pc = .fork ∧ s.sig = .idle then some { s with pc := .exited } else none
  | .close =>
    if s.pc = .close ∧ s.sig = .idle then some { s with pc := .accept } else none
  | .exit i =>
    if i ∈ s.live ∧ s.pc ≠ .exited then
      some { s with
        live := s.live.erase i, zombies := i :: s.zombies
        pending := s.pending || v.handler != .ignore }
    else none
  | .deliver interrupts =>
    if s.pending = true ∧ s.sig = .idle ∧ s.pc ≠ .exited ∧
        (interrupts = true → s.pc = .accept ∧ restart = false) then
      some { s with pending := false, sig := .call, pc := if interrupts then .eintr else s.pc }
    else none
  | .reap i =>
    if s.sig = .call ∧ i ∈ s.zombies then
      some { s with sig := .printf (some i), zombies := s.zombies.erase i, reaped := i :: s.reaped }
    else none
  | .none =>
    if s.sig = .call ∧ s.zombies = [] then
      match v.handler with
      -- `wait` sleeps until a child exits, unless there is none
      | .wait => if s.live = [] then some { s with sig := .printf none } else none
      | _ => some { s with sig := .idle }
    else none
  | .printf => match s.sig with
    | .printf pid => some { s with sig := v.handler.next, printed := pid :: s.printed }
    | _ => none

/-- The server in front of its first `accept`. -/
def init : Sys := ⟨.accept, .idle, false, [], [], [], [], 0⟩

/-- A child exits. -/
def Act.exits : Act → Bool
  | .exit _ => true
  | _ => false

/-- The children that exit, in a run, while the signal is pending already. -/
def coalesced : Sys → List Act → ℕ
  | _, [] => 0
  | s, a :: as =>
    (a.exits && s.pending).toNat + (step v restart s a).elim 0 fun s' => coalesced s' as

/-! ### What a step does -/

section Steps

variable {v restart} {s s' : Sys} {a : Act}

/-- What becomes of the children, and of the signal. -/
inductive Effect (v : Version) (s : Sys) : Act → Sys → Prop
  | server {a : Act} {pc : Pc} (hidle : s.sig = .idle)
      (ha : a ∈ [Act.accept, .aborted, .acceptFails, .test, .forkFails, .close]) :
      Effect v s a { s with pc := pc }
  | fork (hidle : s.sig = .idle) :
      Effect v s .fork { s with pc := .close, live := s.next :: s.live, next := s.next + 1 }
  | exit {i : ℕ} (hi : i ∈ s.live) :
      Effect v s (.exit i) { s with
        live := s.live.erase i, zombies := i :: s.zombies
        pending := s.pending || v.handler != .ignore }
  | deliver {b : Bool} {pc : Pc} (hpending : s.pending = true) (hidle : s.sig = .idle) :
      Effect v s (.deliver b) { s with pending := false, sig := .call, pc := pc }
  | reap {i : ℕ} (hcall : s.sig = .call) (hi : i ∈ s.zombies) :
      Effect v s (.reap i) { s with
        sig := .printf (some i), zombies := s.zombies.erase i, reaped := i :: s.reaped }
  | alone (hcall : s.sig = .call) (hzombies : s.zombies = []) (hv : v.handler = .wait) :
      Effect v s .none { s with sig := .printf none }
  | none (hcall : s.sig = .call) (hzombies : s.zombies = []) (hv : v.handler ≠ .wait) :
      Effect v s .none { s with sig := .idle }
  | printf {pid : Option ℕ} (hsig : s.sig = .printf pid) :
      Effect v s .printf { s with sig := v.handler.next, printed := pid :: s.printed }

theorem effect_of_step (hs : step v restart s a = some s') : Effect v s a s' := by
  cases a with
  | accept | aborted | acceptFails | test | forkFails | close =>
    obtain ⟨hpc, rfl⟩ := Option.ite_some_none_eq_some.mp hs
    exact .server hpc.2 (by simp)
  | fork =>
    obtain ⟨hpc, rfl⟩ := Option.ite_some_none_eq_some.mp hs
    exact .fork hpc.2
  | exit i =>
    obtain ⟨hi, rfl⟩ := Option.ite_some_none_eq_some.mp hs
    exact .exit hi.1
  | deliver interrupts =>
    obtain ⟨⟨hpending, hidle, -⟩, rfl⟩ := Option.ite_some_none_eq_some.mp hs
    exact .deliver hpending hidle
  | reap i =>
    obtain ⟨⟨hcall, hi⟩, rfl⟩ := Option.ite_some_none_eq_some.mp hs
    exact .reap hcall hi
  | none =>
    obtain ⟨⟨hcall, hzombies⟩, hs⟩ := Option.ite_none_right_eq_some.mp hs
    split at hs
    · next hv =>
      obtain ⟨-, rfl⟩ := Option.ite_some_none_eq_some.mp hs
      exact .alone hcall hzombies hv
    · next hv =>
      obtain rfl := Option.some.inj hs
      exact .none hcall hzombies hv
  | printf =>
    simp only [step] at hs
    split at hs
    · next hsig =>
      obtain rfl := Option.some.inj hs
      exact .printf hsig
    · cases hs

/-! ### The books -/

/-- The line that is about to be printed. -/
def HandlerPc.line : HandlerPc → List (Option ℕ)
  | .printf pid => [pid]
  | _ => []

/-- The handler has been called, and has not waited for a child. -/
def HandlerPc.calls : HandlerPc → Bool
  | .call => true
  | _ => false

/-- What is known of the children. -/
structure Books (v : Version) (s : Sys) : Prop where
  /-- Each child is somewhere, and only once. -/
  children : (s.live ++ (s.zombies ++ s.reaped)).Perm (List.range s.next)
  lines : s.reaped.map some = s.sig.line ++ s.printed
  ignored : v.handler = .ignore → s.pending = false ∧ s.sig = .idle
  /-- With `wait` there is a zombie for each call of the handler. -/
  owed : v.handler = .wait → s.pending.toNat + s.sig.calls.toNat ≤ s.zombies.length
  /-- With `waitpid` the handler will see the zombies that there are. -/
  told : v.handler = .waitpid → s.zombies ≠ [] → s.pending = true ∨ s.sig ≠ .idle

theorem books_init : Books v init where
  children := .refl _
  lines := rfl
  ignored := fun _ => ⟨rfl, rfl⟩
  owed := fun _ => Nat.le_refl 0
  told := fun _ h => absurd rfl h

theorem Books.effect (h : Books v s) (hs : Effect v s a s') : Books v s' := by
  cases hs with
  | server hidle => exact ⟨h.children, h.lines, h.ignored, h.owed, h.told⟩
  | fork hidle =>
    refine ⟨?_, h.lines, h.ignored, h.owed, h.told⟩
    rw [List.range_succ]
    exact (h.children.cons s.next).trans (List.perm_append_singleton s.next _).symm
  | @exit i hi =>
    have hperm : (s.live.erase i ++ (i :: s.zombies ++ s.reaped)).Perm
        (s.live ++ (s.zombies ++ s.reaped)) :=
      List.perm_middle.trans ((List.perm_cons_erase hi).symm.append_right _)
    refine ⟨hperm.trans h.children, h.lines, fun hv => ?_, fun hv => ?_, fun hv _ => .inl ?_⟩
    · obtain ⟨hpending, hidle⟩ := h.ignored hv
      exact ⟨by simp [hpending, hv], hidle⟩
    · have howed := h.owed hv
      have hone := Bool.toNat_le (s.pending || v.handler != .ignore)
      simp only [List.length_cons]
      omega
    · simp [hv]
  | deliver hpending hidle =>
    refine ⟨h.children, ?_, fun hv => ?_, fun hv => ?_, fun hv _ => .inr nofun⟩
    · rw [h.lines, hidle]
      rfl
    · rw [(h.ignored hv).1] at hpending
      cases hpending
    · have := h.owed hv
      rw [hpending, hidle] at this
      exact this
  | @reap i hcall hi =>
    have hperm : (s.zombies.erase i ++ i :: s.reaped).Perm (s.zombies ++ s.reaped) :=
      List.perm_middle.trans ((List.perm_cons_erase hi).symm.append_right _)
    refine ⟨(hperm.append_left _).trans h.children, ?_, fun hv => ?_, fun hv => ?_,
      fun _ _ => .inr nofun⟩
    · rw [List.map_cons, h.lines, hcall]
      rfl
    · rw [(h.ignored hv).2] at hcall
      cases hcall
    · have howed := h.owed hv
      rw [hcall] at howed
      rw [List.length_erase_of_mem hi]
      exact Nat.le_sub_of_add_le howed
  | alone hcall hzombies hv =>
    -- there is a zombie for the call
    have := h.owed hv
    rw [hcall, hzombies] at this
    simp [HandlerPc.calls] at this
  | none hcall hzombies hv =>
    refine ⟨h.children, ?_, fun hv => ⟨(h.ignored hv).1, rfl⟩, fun hv' => absurd hv' hv,
      fun _ hne => absurd hzombies hne⟩
    rw [h.lines, hcall]
    rfl
  | printf hsig =>
    refine ⟨h.children, ?_, fun hv => ?_, fun hv => ?_, fun hv _ => .inr ?_⟩
    · rw [h.lines, hsig]
      cases v.handler <;> rfl
    · rw [(h.ignored hv).2] at hsig
      cases hsig
    · have := h.owed hv
      rw [hsig] at this
      simp only [hv]
      exact this
    · simp only [hv]
      nofun

theorem books_reachable (hs : Reachable (step v restart) init s) : Books v s :=
  exec_invariant (fun _ _ _ h hs => h.effect (effect_of_step hs)) books_init hs

end Steps

/-! ### With `waitpid` -/

/-- **Each child that has exited has been reported exactly once**, and none is a zombie, whenever no
signal is pending and the handler is not running. -/
theorem printed_perm (hv : v.handler = .waitpid) (s : Sys) (hs : Reachable (step v restart) init s)
    (hpending : s.pending = false) (hidle : s.sig = .idle) :
    s.zombies = [] ∧ (s.live.map some ++ s.printed).Perm ((List.range s.next).map some) := by
  have h := books_reachable hs
  have hzombies : s.zombies = [] := by
    by_contra hne
    rcases h.told hv hne with hp | hsig
    · rw [hpending] at hp
      cases hp
    · exact hsig hidle
  have hlines := h.lines
  simp only [hidle, HandlerPc.line, List.nil_append] at hlines
  have hchildren := h.children.map some
  rw [hzombies, List.nil_append, List.map_append, hlines] at hchildren
  exact ⟨hzombies, hchildren⟩

/-- Two children exit at once. -/
def twoExit : List Act :=
  [.accept, .fork, .close, .accept, .fork, .exit 0, .exit 1, .deliver false, .reap 1, .printf,
    .reap 0, .printf, .none]

theorem printed_perm_twoExit :
    ∃ s, exec (step tcpserv04 true) init twoExit = some s ∧ s.zombies = [] ∧
      (s.live.map some ++ s.printed).Perm ((List.range s.next).map some) :=
  ⟨_, rfl, printed_perm tcpserv04 true rfl _ ⟨twoExit, rfl⟩ rfl rfl⟩

/-! ### With `wait` -/

/-- One step: a zombie more, or a call less, than there are calls for. -/
theorem zombies_effect {v : Version} {s s' : Sys} {a : Act} (hv : v.handler = .wait)
    (h : Books v s) (hs : Effect v s a s') :
    s'.zombies.length + (s.pending.toNat + s.sig.calls.toNat) =
      s.zombies.length + (s'.pending.toNat + s'.sig.calls.toNat) +
        (a.exits && s.pending).toNat := by
  cases hs with
  | server hidle ha =>
    have hexits : a.exits = false := by
      simp only [List.mem_cons, List.not_mem_nil, or_false] at ha
      rcases ha with rfl | rfl | rfl | rfl | rfl | rfl <;> rfl
    simp only [hexits, Bool.false_and, Bool.toNat_false]
    omega
  | fork => rfl
  | exit =>
    have hset : (s.pending || v.handler != .ignore) = true := by
      rw [hv]
      exact Bool.or_true _
    simp only [Act.exits, hset, List.length_cons, Bool.toNat_true, Bool.true_and]
    omega
  | deliver hpending hidle =>
    simp [hpending, hidle, Act.exits, HandlerPc.calls]
  | reap hcall hi =>
    have hpos := List.length_pos_of_mem hi
    simp only [hcall, HandlerPc.calls, Act.exits, List.length_erase_of_mem hi, Bool.toNat_true,
      Bool.toNat_false, Bool.false_and]
    omega
  | alone hcall hzombies =>
    have howed := h.owed hv
    simp [hcall, hzombies, HandlerPc.calls] at howed
  | none _ _ hv' => exact absurd hv hv'
  | printf hsig => simp [hsig, hv, Handler.next, HandlerPc.calls, Act.exits]

theorem zombies_run {v : Version} {restart : Bool} (hv : v.handler = .wait) :
    ∀ (as : List Act) (s s' : Sys), Books v s → exec (step v restart) s as = some s' →
      s'.zombies.length + (s.pending.toNat + s.sig.calls.toNat) =
        s.zombies.length + (s'.pending.toNat + s'.sig.calls.toNat) + coalesced v restart s as := by
  intro as
  induction as with
  | nil =>
    intro s s' _ h
    obtain rfl := Option.some.inj h
    rfl
  | cons a as ih =>
    intro s s' hs h
    obtain ⟨t, ht, htail⟩ := exec_cons_eq_some.mp h
    have heffect := effect_of_step ht
    have hfirst := zombies_effect hv hs heffect
    have hrest := ih t s' (hs.effect heffect) htail
    rw [coalesced, ht, Option.elim_some]
    omega

/-- Three children exit at once, and two of them stay zombies. -/
def threeExit : List Act :=
  [.accept, .fork, .close, .accept, .fork, .close, .accept, .fork, .exit 0, .exit 1, .exit 2,
    .deliver false, .reap 1, .printf]

section Handling

variable {v restart} {s s' : Sys} {a : Act}

/-- A step of the handler. -/
def Act.handles : Act → Bool
  | .reap _ | .none | .printf => true
  | _ => false

/-- The steps that are left to the handler when no more children exit. -/
def left (s : Sys) : ℕ :=
  2 * s.zombies.length + match s.sig with
    | .idle => 0
    | .call => 1
    | .printf _ => 2

theorem left_effect (h : Books v s) (hsig : s.sig ≠ .idle) (hs : Effect v s a s') :
    left s' + (if a.handles then 1 else 0) ≤ left s + (if a.exits then 2 else 0) := by
  cases hs with
  | server hidle | fork hidle | deliver _ hidle => exact absurd hidle hsig
  | exit => simp [left, Act.handles, Act.exits]; omega
  | reap hcall hi =>
    have hpos := List.length_pos_of_mem hi
    simp only [left, hcall, Act.handles, Act.exits, List.length_erase_of_mem hi]
    simp
    omega
  | alone hcall hzombies hv =>
    have howed := h.owed hv
    simp [hcall, hzombies, HandlerPc.calls] at howed
  | none hcall hzombies => simp [left, hcall, Act.handles, Act.exits, hzombies]
  | printf hsig =>
    simp only [left, hsig, Act.handles, Act.exits]
    cases v.handler <;> simp [Handler.next]

/-- The handler does not wait for a child that still runs. -/
theorem exists_handles (h : Books v s) (hsig : s.sig ≠ .idle) :
    ∃ a : Act, a.handles = true ∧ (step v restart s a).isSome = true := by
  cases hcall : s.sig with
  | idle => exact absurd hcall hsig
  | printf pid => exact ⟨.printf, rfl, by simp [step, hcall]⟩
  | call =>
    cases hzombies : s.zombies with
    | cons i zombies => exact ⟨.reap i, rfl, by simp [step, hcall, hzombies]⟩
    | nil =>
      cases hv : v.handler with
      | ignore => exact absurd (h.ignored hv).2 hsig
      | wait =>
        have howed := h.owed hv
        simp [hcall, hzombies, HandlerPc.calls] at howed
      | waitpid => exact ⟨.none, rfl, by simp [step, hcall, hzombies, hv]⟩

end Handling

/-- One of two children exits. -/
def oneExits : List Act :=
  [.accept, .fork, .close, .accept, .fork, .exit 0, .deliver false]

section Exits

variable {v restart} {s s' : Sys} {a : Act}

/-- A server that is there, and has been interrupted only by a signal that it handles. -/
structure Serves (v : Version) (restart : Bool) (s : Sys) : Prop where
  there : s.pc ≠ .exited
  signal : s.pending = true → v.handler ≠ .ignore
  interrupted : s.pc = .eintr → v.handler ≠ .ignore ∧ restart = false

theorem Serves.step (h : Serves v restart s) (hs : Reap.step v restart s a = some s')
    (ha : a ∉ [Act.acceptFails, .forkFails]) (hretry : v.retry = true → a ≠ .aborted)
    (htest : v.handler ≠ .ignore → v.retry = false → restart = false → a ≠ .test) :
    Serves v restart s' := by
  cases a with
  | acceptFails | forkFails => simp at ha
  | accept | close | fork =>
    obtain ⟨-, rfl⟩ := Option.ite_some_none_eq_some.mp hs
    exact ⟨nofun, h.signal, nofun⟩
  | aborted =>
    obtain ⟨-, rfl⟩ := Option.ite_some_none_eq_some.mp hs
    cases hv : v.retry with
    | true => exact absurd rfl (hretry hv)
    | false => exact ⟨nofun, h.signal, nofun⟩
  | test =>
    obtain ⟨⟨hpc, -⟩, rfl⟩ := Option.ite_some_none_eq_some.mp hs
    obtain ⟨hhandler, hrestart⟩ := h.interrupted hpc
    cases hv : v.retry with
    | true => exact ⟨nofun, h.signal, nofun⟩
    | false => exact absurd rfl (htest hhandler hv hrestart)
  | exit i =>
    obtain ⟨-, rfl⟩ := Option.ite_some_none_eq_some.mp hs
    refine ⟨h.there, fun hpending => ?_, h.interrupted⟩
    rcases (Bool.or_eq_true _ _).mp hpending with hp | hp
    · exact h.signal hp
    · simpa using hp
  | deliver interrupts =>
    obtain ⟨⟨hpending, -, -, hinterrupts⟩, rfl⟩ := Option.ite_some_none_eq_some.mp hs
    cases interrupts with
    | false => exact ⟨h.there, nofun, h.interrupted⟩
    | true => exact ⟨nofun, nofun, fun _ => ⟨h.signal hpending, (hinterrupts rfl).2⟩⟩
  | reap i =>
    obtain ⟨-, rfl⟩ := Option.ite_some_none_eq_some.mp hs
    exact ⟨h.there, h.signal, h.interrupted⟩
  | none =>
    obtain ⟨-, hs⟩ := Option.ite_none_right_eq_some.mp hs
    split at hs
    · obtain ⟨-, rfl⟩ := Option.ite_some_none_eq_some.mp hs
      exact ⟨h.there, h.signal, h.interrupted⟩
    · obtain rfl := Option.some.inj hs
      exact ⟨h.there, h.signal, h.interrupted⟩
  | printf =>
    simp only [Reap.step] at hs
    split at hs
    · obtain rfl := Option.some.inj hs
      exact ⟨h.there, h.signal, h.interrupted⟩
    · cases hs

theorem serves_init : Serves v restart init := ⟨nofun, nofun, nofun⟩

/-- A server does not exit of its own accord. -/
theorem serves_run {as : List Act} (hs : exec (Reap.step v restart) init as = some s)
    (has : ∀ a ∈ as, a ∉ [Act.acceptFails, .forkFails])
    (hretry : v.retry = true → ∀ a ∈ as, a ≠ .aborted)
    (htest : v.handler ≠ .ignore → v.retry = false → restart = false → ∀ a ∈ as, a ≠ .test) :
    Serves v restart s := by
  have halong : Along (Reap.step v restart) (fun _ a => a ∈ as) init as :=
    along_of_forall as init fun a ha _ => ha
  exact exec_invariant_along (fun s a s' h ha hs => h.step hs (has a ha)
    (fun hv => hretry hv a ha) fun h₁ h₂ h₃ => htest h₁ h₂ h₃ a ha) as init s serves_init halong hs

end Exits

/-- **Which servers exit although no call has failed for good**: the one that calls `Accept` when
the system lets `accept` be interrupted, and those that call `accept` when a connection is
aborted. -/
theorem exits_iff :
    ((∃ as s, exec (step v restart) init as = some s ∧ s.pc = .exited ∧
      ∀ a ∈ as, a ∉ [Act.acceptFails, .forkFails, .aborted]) ↔
        v.handler ≠ .ignore ∧ v.retry = false ∧ restart = false) ∧
    ((∃ as s, exec (step v restart) init as = some s ∧ s.pc = .exited ∧
      ∀ a ∈ as, a ∉ [Act.acceptFails, .forkFails, .test]) ↔ v.retry = true) := by
  have hall : ∀ {as : List Act} {x y z : Act}, (∀ a ∈ as, a ∉ [x, y, z]) →
      (∀ a ∈ as, a ∉ [x, y]) ∧ ∀ a ∈ as, a ≠ z := by
    simp only [List.mem_cons, List.not_mem_nil, or_false, not_or]
    exact fun h => ⟨fun a ha => ⟨(h a ha).1, (h a ha).2.1⟩, fun a ha => (h a ha).2.2⟩
  constructor
  · constructor
    · rintro ⟨as, s, hs, hpc, has⟩
      by_contra hnot
      obtain ⟨hfails, haborted⟩ := hall has
      refine (serves_run hs hfails (fun _ => haborted) fun h₁ h₂ h₃ => ?_).there hpc
      exact absurd ⟨h₁, h₂, h₃⟩ hnot
    · rintro ⟨hv, hretry, rfl⟩
      obtain ⟨handler, retry⟩ := v
      obtain rfl : retry = false := hretry
      cases handler with
      | ignore => exact absurd rfl hv
      | wait =>
        exact ⟨[.accept, .fork, .close, .exit 0, .deliver true, .reap 0, .printf, .test], _, rfl,
          rfl, by decide⟩
      | waitpid =>
        exact ⟨[.accept, .fork, .close, .exit 0, .deliver true, .reap 0, .printf, .none, .test], _,
          rfl, rfl, by decide⟩
  · constructor
    · rintro ⟨as, s, hs, hpc, has⟩
      by_contra hnot
      obtain ⟨hfails, htest⟩ := hall has
      exact (serves_run hs hfails (fun hv => absurd hv hnot) fun _ _ _ => htest).there hpc
    · intro hretry
      obtain ⟨handler, retry⟩ := v
      obtain rfl : retry = true := hretry
      exact ⟨[.aborted], _, rfl, rfl, by decide⟩

end TcpIp.Reap
