import TcpIp.Kernel
import TcpIp.Lib.Run

/-!
# The client over `/dev/poll`

`str_cli` of `advio/str_cli_poll03.c` registers standard input and the socket with
`/dev/poll` and never takes one of them out again.  A descriptor at its end of file is
readable, so every poll made after the end of standard input reports it once more.  The
version over `select` (`select/strcliselect02.c`) asks for standard input only as long as
its end of file has not been read.

The two do the same with a descriptor that is ready; `Cli.turn` is that part.  An action
is a call that waits, the turn of one descriptor, or something that happens to a
descriptor in the meantime.

## Main definitions

* `Desc`, `Cli`, `Cli.turn` — the descriptors, and what both versions do with them.
* `Poll`, `Select` — the two versions.
* `Cli.Once` — one `Shutdown`, and no `Read` of standard input behind its end of file.
* `Poll.FindsEnd` — a poll behind the end of standard input finds the connection over.

## Main results

* `half_closes_once` — in which runs the two versions close their half once.
-/

namespace TcpIp.Advio

open Run

/-- `MAXLINE`. -/
def maxLine : ℕ := 4096

/-- The descriptors of the client. -/
inductive Fd where
  /-- `fileno(fp)`. -/
  | stdin
  /-- `sockfd`. -/
  | sock
  deriving DecidableEq, Repr

/-- What the kernel has for a descriptor. -/
structure Desc where
  /-- The bytes that have not been read. -/
  queue : List UInt8
  /-- Nothing comes behind them. -/
  ended : Bool
  /-- An error is pending. -/
  failed : Bool
  deriving DecidableEq, Repr

inductive Event where
  | arrive (bs : List UInt8)
  /-- The other side closes. -/
  | close
  /-- The connection breaks. -/
  | fail
  deriving DecidableEq, Repr

namespace Desc

def readable (d : Desc) : Bool := !d.queue.isEmpty || d.ended || d.failed

/-- What `read` may return: any positive number of bytes that are there, or `0` at the end
of file. -/
def readOk (d : Desc) (n : ℕ) : Bool :=
  if n = 0 then d.queue.isEmpty && d.ended else decide (n ≤ maxLine ∧ n ≤ d.queue.length)

def on (d : Desc) : Event → Option Desc
  | .arrive bs => if d.ended || d.failed then none else some { d with queue := d.queue ++ bs }
  | .close => some { d with ended := true }
  | .fail => some { d with failed := true }

/-- Nothing more can be read. -/
def Over (d : Desc) : Prop := d.queue = [] ∧ (d.ended = true ∨ d.failed = true)

end Desc

/-! ### What both versions do -/

/-- Whether `str_cli` is in its loop. -/
inductive Status where
  | running
  | returned
  /-- Left through `err_sys` or `err_quit`. -/
  | exited
  deriving DecidableEq, Repr

structure Cli where
  input : Desc
  sock : Desc
  stdineof : Bool
  status : Status
  /-- What the calls of `Read` on standard input have returned. -/
  reads : List (Except Errno ℕ)
  /-- How often `Shutdown` has been called. -/
  shutdowns : ℕ
  /-- What has been written to standard output. -/
  stdout : List UInt8
  /-- What has been written to the socket. -/
  sent : List UInt8

namespace Cli

def init : Cli where
  input := ⟨[], false, false⟩
  sock := ⟨[], false, false⟩
  stdineof := false
  status := .running
  reads := []
  shutdowns := 0
  stdout := []
  sent := []

/-- `err_sys` and `err_quit`. -/
def exit (c : Cli) : Cli := { c with status := .exited }

def readable (c : Cli) : Fd → Bool
  | .stdin => c.input.readable
  | .sock => c.sock.readable

def on (c : Cli) (e : Event) : Fd → Option Cli
  | .stdin => (c.input.on e).map fun input => { c with input }
  | .sock => (c.sock.on e).map fun sock => { c with sock }

/-- `n` bytes have been read from the socket; `ok` tells whether `Write` succeeds. -/
def gotReply (c : Cli) (n : ℕ) (ok : Bool) : Cli :=
  let buf := c.sock.queue.take n
  let c := { c with sock.queue := c.sock.queue.drop n }
  if n = 0 then
    if c.stdineof then { c with status := .returned } else c.exit
  else if ok then { c with stdout := c.stdout ++ buf } else c.exit

/-- `n` bytes have been read from standard input; `ok` tells whether the call of `Shutdown`
or `Writen` that follows succeeds. -/
def gotInput (c : Cli) (n : ℕ) (ok : Bool) : Cli :=
  let buf := c.input.queue.take n
  let c := { c with input.queue := c.input.queue.drop n, reads := c.reads ++ [Except.ok n] }
  if n = 0 then
    let c := { c with stdineof := true, shutdowns := c.shutdowns + 1 }
    if ok then c else c.exit
  else if ok then { c with sent := c.sent ++ buf } else c.exit

/-- The turn of a descriptor that is ready: `Read`, and the call that follows it. -/
def turn (c : Cli) : Fd → Except Errno ℕ → Bool → Option Cli
  | .sock, .ok n, ok => if c.sock.readOk n then some (c.gotReply n ok) else none
  | .sock, .error _, _ => some c.exit
  | .stdin, .ok n, ok => if c.input.readOk n then some (c.gotInput n ok) else none
  | .stdin, .error e, _ => some { c with reads := c.reads ++ [Except.error e] }.exit

/-- `Shutdown` has been called once at most, and standard input has not been read behind its
end of file. -/
def Once (c : Cli) : Prop := c.shutdowns ≤ 1 ∧ .ok 0 ∉ c.reads.dropLast

end Cli

/-! ### The version over `/dev/poll` -/

namespace Poll

structure Sys where
  cli : Cli
  /-- The entries of `dp_fds` that the inner loop has not come to. -/
  ready : List Fd

/-- The descriptors that are registered. -/
def pollfd : List Fd := [.stdin, .sock]

inductive Act where
  | event (fd : Fd) (e : Event)
  /-- `ioctl` returns with these descriptors in `dp_fds`, or fails. -/
  | ioctl (res : Except Errno (List Fd))
  | turn (res : Except Errno ℕ) (ok : Bool)

/-- The transition function.  `DP_POLL` reports the registered descriptors that are
readable, in any order. -/
def step (s : Sys) : Act → Option Sys
  | .event fd e => (s.cli.on e fd).map fun cli => { s with cli }
  | .ioctl res =>
    if s.cli.status = .running ∧ s.ready = [] then
      match res with
      | .error _ => some { s with cli := s.cli.exit }
      | .ok fds =>
        if fds ≠ [] ∧ fds.Perm (pollfd.filter s.cli.readable) then some { s with ready := fds }
        else none
    else none
  | .turn res ok =>
    if s.cli.status = .running then
      match s.ready with
      | [] => none
      | fd :: ready => (s.cli.turn fd res ok).map fun cli => { cli, ready }
    else none

def init : Sys := ⟨.init, []⟩

/-- A poll made behind the end of standard input reports the socket first, and nothing is
left to read from it: it is at its end of file, or an error is pending. -/
def FindsEnd (s : Sys) : Act → Prop
  | .ioctl (.ok fds) =>
    s.cli.stdineof = true → fds.head? = some .sock ∧ s.cli.sock.queue = []
  | _ => True

instance FindsEnd.decidable (s : Sys) : (a : Act) → Decidable (FindsEnd s a)
  | .ioctl (.ok fds) =>
    inferInstanceAs (Decidable (s.cli.stdineof = true →
      fds.head? = some .sock ∧ s.cli.sock.queue = []))
  | .ioctl (.error _) | .event _ _ | .turn _ _ => isTrue trivial

end Poll

/-! ### The version over `select` -/

namespace Select

structure Sys where
  cli : Cli
  rset : List Fd
  /-- The tests of `rset` that the turn of the loop has not come to. -/
  tests : List Fd

inductive Act where
  | event (fd : Fd) (e : Event)
  /-- `select` returns or fails. -/
  | select (res : Except Errno Unit)
  | turn (res : Except Errno ℕ) (ok : Bool)
  /-- The descriptor to test is not in `rset`. -/
  | skip

/-- `rset` when `Select` is called: it holds what the last turn has left in it. -/
def Sys.asked (s : Sys) : List Fd :=
  .sock :: if s.cli.stdineof then s.rset else .stdin :: s.rset

/-- The transition function. -/
def step (s : Sys) : Act → Option Sys
  | .event fd e => (s.cli.on e fd).map fun cli => { s with cli }
  | .select res =>
    if s.cli.status = .running ∧ s.tests = [] then
      match res with
      | .error _ => some { s with cli := s.cli.exit }
      | .ok () =>
        let rset := s.asked.filter s.cli.readable
        if rset ≠ [] then some { s with rset, tests := [.sock, .stdin] } else none
    else none
  | .turn res ok =>
    if s.cli.status = .running then
      match s.tests with
      | [] => none
      | fd :: tests =>
        if fd ∈ s.rset then
          (s.cli.turn fd res ok).map fun cli =>
            -- `FD_CLR`
            let rset := if fd = .stdin ∧ res = .ok 0 then s.rset.filter (· ≠ .stdin) else s.rset
            { cli, rset, tests }
        else none
    else none
  | .skip =>
    match s.tests with
    | [] => none
    | fd :: tests => if fd ∈ s.rset then none else some { s with tests }

def init : Sys := ⟨.init, [], []⟩

end Select

/-! ### What a turn does -/

/-- What has been done, in terms of `stdineof`. -/
structure Closes (c : Cli) : Prop where
  open_of : c.stdineof = false → c.shutdowns = 0 ∧ .ok 0 ∉ c.reads
  closed_of : c.stdineof = true → c.shutdowns = 1 ∧ .ok 0 ∉ c.reads.dropLast

/-- Standard input is at its end of file, and that has been read. -/
def Ended (c : Cli) : Prop :=
  c.stdineof = true →
    c.input.queue = [] ∧ c.input.ended = true ∧ 1 ≤ c.shutdowns ∧ .ok 0 ∈ c.reads

theorem Closes.once {c : Cli} (h : Closes c) : c.Once := by
  cases heof : c.stdineof with
  | false =>
    obtain ⟨hshut, hreads⟩ := h.open_of heof
    exact ⟨by omega, fun hmem => hreads (List.dropLast_subset _ hmem)⟩
  | true =>
    obtain ⟨hshut, hreads⟩ := h.closed_of heof
    exact ⟨by omega, hreads⟩

theorem closes_init : Closes .init where
  open_of _ := ⟨rfl, List.not_mem_nil⟩
  closed_of h := by cases h

section

variable {c c' : Cli}

/-- What a step leaves alone when it does not read standard input. -/
structure Keeps (c c' : Cli) : Prop where
  stdineof : c'.stdineof = c.stdineof
  reads : c'.reads = c.reads
  shutdowns : c'.shutdowns = c.shutdowns

theorem Closes.keeps (h : Closes c) (hkeeps : Keeps c c') : Closes c' where
  open_of heof := by
    rw [hkeeps.shutdowns, hkeeps.reads]
    exact h.open_of (hkeeps.stdineof.symm.trans heof)
  closed_of heof := by
    rw [hkeeps.shutdowns, hkeeps.reads]
    exact h.closed_of (hkeeps.stdineof.symm.trans heof)

theorem Ended.keeps (h : Ended c) (hkeeps : Keeps c c')
    (hinput : c.input.queue = [] → c.input.ended = true →
      c'.input.queue = [] ∧ c'.input.ended = true) : Ended c' := by
  intro heof
  obtain ⟨hqueue, hended, hshut, hreads⟩ := h (hkeeps.stdineof.symm.trans heof)
  obtain ⟨hqueue', hended'⟩ := hinput hqueue hended
  rw [hkeeps.shutdowns, hkeeps.reads]
  exact ⟨hqueue', hended', hshut, hreads⟩

/-- What is over stays over. -/
theorem on_of_ended {d d' : Desc} {e : Event} (h : d.on e = some d')
    (hover : d.ended = true ∨ d.failed = true) :
    d'.queue = d.queue ∧ (d.ended = true → d'.ended = true) ∧
      (d'.ended = true ∨ d'.failed = true) := by
  cases e with
  | arrive bs =>
    have hnone : (d.ended || d.failed) = true := by
      rw [Bool.or_eq_true]
      exact hover
    simp only [Desc.on, hnone, if_true] at h
    cases h
  | close =>
    cases h
    exact ⟨rfl, fun _ => rfl, .inl rfl⟩
  | fail =>
    cases h
    exact ⟨rfl, id, .inr rfl⟩

/-- **An event** changes one descriptor. -/
theorem on_cases {fd : Fd} {e : Event} (h : c.on e fd = some c') :
    (∃ input, c.input.on e = some input ∧ c' = { c with input }) ∨
      ∃ sock, c.sock.on e = some sock ∧ c' = { c with sock } := by
  cases fd with
  | stdin =>
    obtain ⟨input, hon, rfl⟩ := Option.map_eq_some_iff.mp h
    exact .inl ⟨input, hon, rfl⟩
  | sock =>
    obtain ⟨sock, hon, rfl⟩ := Option.map_eq_some_iff.mp h
    exact .inr ⟨sock, hon, rfl⟩

theorem keeps_on {fd : Fd} {e : Event} (h : c.on e fd = some c') :
    Keeps c c' ∧ c'.status = c.status := by
  obtain ⟨input, -, rfl⟩ | ⟨sock, -, rfl⟩ := on_cases h
  · exact ⟨⟨rfl, rfl, rfl⟩, rfl⟩
  · exact ⟨⟨rfl, rfl, rfl⟩, rfl⟩

theorem ended_on {fd : Fd} {e : Event} (h : Ended c) (hs : c.on e fd = some c') : Ended c' := by
  refine h.keeps (keeps_on hs).1 fun hqueue hended => ?_
  obtain ⟨input, hon, rfl⟩ | ⟨sock, -, rfl⟩ := on_cases hs
  · obtain ⟨hqueue', hended', -⟩ := on_of_ended hon (.inl hended)
    exact ⟨hqueue'.trans hqueue, hended' hended⟩
  · exact ⟨hqueue, hended⟩

theorem over_on {fd : Fd} {e : Event} (h : c.sock.Over) (hs : c.on e fd = some c') :
    c'.sock.Over := by
  obtain ⟨input, -, rfl⟩ | ⟨sock, hon, rfl⟩ := on_cases hs
  · exact h
  · obtain ⟨hqueue, -, hover⟩ := on_of_ended hon h.2
    exact ⟨hqueue.trans h.1, hover⟩

/-- **The turn of the socket** leaves standard input alone. -/
theorem keeps_sock {res : Except Errno ℕ} {ok : Bool} (h : c.turn .sock res ok = some c') :
    Keeps c c' ∧ c'.input = c.input := by
  cases res with
  | error e =>
    cases h
    exact ⟨⟨rfl, rfl, rfl⟩, rfl⟩
  | ok n =>
    obtain ⟨-, heq⟩ := Option.ite_none_right_eq_some.mp h
    rw [Option.some.injEq] at heq
    subst heq
    unfold Cli.gotReply
    dsimp only
    split
    · split <;> exact ⟨⟨rfl, rfl, rfl⟩, rfl⟩
    · split <;> exact ⟨⟨rfl, rfl, rfl⟩, rfl⟩

/-- When the socket is over, its turn is the last one. -/
theorem not_running_of_over {res : Except Errno ℕ} {ok : Bool} (hover : c.sock.Over)
    (h : c.turn .sock res ok = some c') : c'.status ≠ .running := by
  cases res with
  | error e =>
    cases h
    intro hrun
    cases hrun
  | ok n =>
    obtain ⟨hread, heq⟩ := Option.ite_none_right_eq_some.mp h
    rw [Option.some.injEq] at heq
    subst heq
    have hzero : n = 0 := by
      by_contra hne
      rw [Desc.readOk, if_neg hne, decide_eq_true_eq, hover.1, List.length_nil] at hread
      omega
    subst hzero
    simp only [Cli.gotReply, if_true]
    split
    · intro hrun
      cases hrun
    · intro hrun
      cases hrun

/-- What the turn of standard input does to the record. -/
inductive InputTurn (c : Cli) (res : Except Errno ℕ) (c' : Cli) : Prop
  /-- Bytes have been read, or an error. -/
  | other (hres : res ≠ .ok 0) (hreads : c'.reads = c.reads ++ [res])
    (heof : c'.stdineof = c.stdineof) (hshut : c'.shutdowns = c.shutdowns)
    (hinput : c'.input = c.input ∨ c.input.queue ≠ [])
  /-- The end of file has been read. -/
  | eof (hres : res = .ok 0) (hqueue : c'.input.queue = []) (hended : c'.input.ended = true)
    (hreads : c'.reads = c.reads ++ [.ok 0]) (heof : c'.stdineof = true)
    (hshut : c'.shutdowns = c.shutdowns + 1)

/-- **The turn of standard input.** -/
theorem inputTurn {res : Except Errno ℕ} {ok : Bool} (h : c.turn .stdin res ok = some c') :
    InputTurn c res c' := by
  cases res with
  | error e =>
    cases h
    exact .other (by intro h; cases h) rfl rfl rfl (.inl rfl)
  | ok n =>
    obtain ⟨hread, heq⟩ := Option.ite_none_right_eq_some.mp h
    rw [Option.some.injEq] at heq
    subst heq
    rcases eq_or_ne n 0 with rfl | hn
    · rw [Desc.readOk, if_pos rfl, Bool.and_eq_true, List.isEmpty_iff] at hread
      obtain ⟨hqueue, hended⟩ := hread
      cases ok with
      | true => exact .eof rfl hqueue hended rfl rfl rfl
      | false => exact .eof rfl hqueue hended rfl rfl rfl
    · rw [Desc.readOk, if_neg hn, decide_eq_true_eq] at hread
      have hqueue : c.input.queue ≠ [] := by
        intro hnil
        rw [hnil, List.length_nil] at hread
        omega
      have hres : (.ok n : Except Errno ℕ) ≠ .ok 0 := fun heq => hn (Except.ok.inj heq)
      cases ok with
      | true =>
        simp only [Cli.gotInput, if_neg hn, if_true]
        exact .other hres rfl rfl rfl (.inr hqueue)
      | false =>
        simp only [Cli.gotInput, if_neg hn, Bool.false_eq_true, if_false]
        exact .other hres rfl rfl rfl (.inr hqueue)

/-- `stdineof` is set when the end of file is read. -/
theorem res_of_stdineof {res : Except Errno ℕ} {ok : Bool} (hopen : c.stdineof = false)
    (hs : c.turn .stdin res ok = some c') (hclosed : c'.stdineof = true) : res = .ok 0 := by
  cases inputTurn hs with
  | other _ _ heof =>
    rw [heof, hopen] at hclosed
    cases hclosed
  | eof hres => exact hres

/-- The turn of standard input while its end of file has not been read. -/
theorem closes_stdin {res : Except Errno ℕ} {ok : Bool} (h : Closes c)
    (hopen : c.stdineof = false) (hs : c.turn .stdin res ok = some c') : Closes c' := by
  obtain ⟨hnone, hfresh⟩ := h.open_of hopen
  cases inputTurn hs with
  | other hres hreads heof hshut =>
    refine ⟨fun _ => ⟨hshut.trans hnone, ?_⟩, fun hclosed => ?_⟩
    · rw [hreads, List.mem_append, List.mem_singleton, not_or]
      exact ⟨hfresh, hres.symm⟩
    · rw [heof, hopen] at hclosed
      cases hclosed
  | eof hres hqueue hended hreads heof hshut =>
    refine ⟨fun hopen' => ?_, fun _ => ⟨by rw [hshut, hnone], ?_⟩⟩
    · rw [heof] at hopen'
      cases hopen'
    · rw [hreads, List.dropLast_concat]
      exact hfresh

theorem ended_turn {fd : Fd} {res : Except Errno ℕ} {ok : Bool} (h : Ended c)
    (hs : c.turn fd res ok = some c') : Ended c' := by
  cases fd with
  | sock =>
    obtain ⟨hkeeps, hinput⟩ := keeps_sock hs
    refine h.keeps hkeeps fun hqueue hended => ?_
    rw [hinput]
    exact ⟨hqueue, hended⟩
  | stdin =>
    intro hclosed
    cases inputTurn hs with
    | other hres hreads heof hshut hinput =>
      obtain ⟨hqueue, hended, hpos, hmem⟩ := h (heof.symm.trans hclosed)
      have hsame : c'.input = c.input := hinput.resolve_right fun hne => hne hqueue
      rw [hsame, hshut, hreads]
      exact ⟨hqueue, hended, hpos, List.mem_append_left _ hmem⟩
    | eof hres hqueue hended hreads heof hshut =>
      rw [hreads]
      exact ⟨hqueue, hended, by omega, List.mem_append_right _ (List.mem_singleton.mpr rfl)⟩

/-- Standard input is read behind its end of file. -/
theorem turn_stdin_again (h : Ended c) (heof : c.stdineof = true) :
    ∃ c', c.turn .stdin (.ok 0) true = some c' ∧ 2 ≤ c'.shutdowns ∧ .ok 0 ∈ c'.reads.dropLast := by
  obtain ⟨hqueue, hended, hpos, hmem⟩ := h heof
  have hread : c.input.readOk 0 = true := by
    rw [Desc.readOk, if_pos rfl, hqueue, hended]
    rfl
  refine ⟨c.gotInput 0 true, ?_, ?_, ?_⟩
  · simp only [Cli.turn, hread, if_true]
  · show 2 ≤ c.shutdowns + 1
    omega
  · show Except.ok 0 ∈ (c.reads ++ [Except.ok 0]).dropLast
    rw [List.dropLast_concat]
    exact hmem

end

/-! ### The version over `select` -/

namespace Select

/-- Standard input is not asked for behind its end of file. -/
structure Clears (s : Sys) : Prop where
  closes : Closes s.cli
  clear : s.cli.stdineof = true → .stdin ∉ s.rset

theorem clears_step (s : Sys) (a : Act) (s' : Sys) (h : Clears s) (hs : step s a = some s') :
    Clears s' := by
  cases a with
  | event fd e =>
    obtain ⟨cli, hon, rfl⟩ := Option.map_eq_some_iff.mp hs
    have hkeeps := (keeps_on hon).1
    exact ⟨h.closes.keeps hkeeps, fun heof => h.clear (hkeeps.stdineof.symm.trans heof)⟩
  | select res =>
    obtain ⟨-, hs⟩ := Option.ite_none_right_eq_some.mp hs
    cases res with
    | error e =>
      cases hs
      exact ⟨h.closes.keeps ⟨rfl, rfl, rfl⟩, h.clear⟩
    | ok =>
      obtain ⟨-, hs⟩ := Option.ite_none_right_eq_some.mp hs
      cases hs
      refine ⟨h.closes, fun heof hmem => ?_⟩
      have hasked := (List.mem_filter.mp hmem).1
      rw [Sys.asked, heof, if_pos rfl, List.mem_cons] at hasked
      obtain hsock | hrset := hasked
      · cases hsock
      · exact h.clear heof hrset
  | turn res ok =>
    obtain ⟨-, hs⟩ := Option.ite_none_right_eq_some.mp hs
    split at hs
    · cases hs
    · next fd tests htests =>
      obtain ⟨hmem, hs⟩ := Option.ite_none_right_eq_some.mp hs
      obtain ⟨cli, hturn, rfl⟩ := Option.map_eq_some_iff.mp hs
      cases fd with
      | sock =>
        have hkeeps := (keeps_sock hturn).1
        refine ⟨h.closes.keeps hkeeps, fun heof => ?_⟩
        rw [if_neg (by intro hcond; cases hcond.1)]
        exact h.clear (hkeeps.stdineof.symm.trans heof)
      | stdin =>
        have hopen : s.cli.stdineof = false :=
          Bool.eq_false_iff.mpr fun heof => h.clear heof hmem
        refine ⟨closes_stdin h.closes hopen hturn, fun heof => ?_⟩
        rw [if_pos ⟨rfl, res_of_stdineof hopen hturn heof⟩, List.mem_filter]
        exact fun hmem => of_decide_eq_true hmem.2 rfl
  | skip =>
    simp only [step] at hs
    split at hs
    · cases hs
    · split at hs
      · cases hs
      · cases hs
        exact ⟨h.closes, h.clear⟩

theorem once_of_reachable {s : Sys} (h : Reachable step init s) : s.cli.Once := by
  refine (exec_invariant clears_step ⟨closes_init, ?_⟩ h).closes.once
  intro heof
  cases heof

end Select

/-! ### The version over `/dev/poll` -/

namespace Poll

/-- What the condition on the polls achieves: behind the end of standard input its turn
does not come, unless the socket's comes first and is the last one. -/
structure Finds (s : Sys) : Prop where
  closes : Closes s.cli
  nodup : s.ready.Nodup
  last : s.cli.status = .running → s.cli.stdineof = true →
    .stdin ∉ s.ready ∨ (s.ready.head? = some .sock ∧ s.cli.sock.Over)

theorem nodup_of_perm {c : Cli} {fds : List Fd} (h : fds.Perm (pollfd.filter c.readable)) :
    fds.Nodup :=
  h.nodup_iff.mpr (List.filter_sublist.nodup (by decide))

theorem readable_of_perm {c : Cli} {fds : List Fd} (h : fds.Perm (pollfd.filter c.readable))
    {fd : Fd} : fd ∈ fds ↔ c.readable fd = true := by
  rw [h.mem_iff, List.mem_filter]
  refine and_iff_right ?_
  cases fd with
  | stdin => exact List.mem_cons_self
  | sock => exact List.mem_cons_of_mem _ List.mem_cons_self

/-- The poll finds the connection over. -/
theorem over_of_findsEnd {c : Cli} {fds : List Fd} (h : fds.Perm (pollfd.filter c.readable))
    (hhead : fds.head? = some .sock) (hqueue : c.sock.queue = []) : c.sock.Over := by
  have hread : c.sock.readable = true :=
    (readable_of_perm h).mp (List.mem_of_mem_head? hhead)
  rw [Desc.readable, hqueue, Bool.or_eq_true, Bool.or_eq_true] at hread
  obtain (hfalse | hended) | hfailed := hread
  · cases hfalse
  · exact ⟨hqueue, .inl hended⟩
  · exact ⟨hqueue, .inr hfailed⟩

theorem finds_turn {s : Sys} {fd : Fd} {ready : List Fd} {res : Except Errno ℕ} {ok : Bool}
    {cli : Cli} (h : Finds s) (hrun : s.cli.status = .running) (hready : s.ready = fd :: ready)
    (hturn : s.cli.turn fd res ok = some cli) : Finds ⟨cli, ready⟩ := by
  obtain ⟨hnot, hnodup⟩ := List.nodup_cons.mp (hready ▸ h.nodup)
  have hlast := h.last hrun
  rw [hready] at hlast
  cases fd with
  | sock =>
    have hkeeps := (keeps_sock hturn).1
    refine ⟨h.closes.keeps hkeeps, hnodup, fun hrun' heof => .inl ?_⟩
    obtain hnone | ⟨-, hover⟩ := hlast (hkeeps.stdineof.symm.trans heof)
    · exact fun hmem => hnone (List.mem_cons_of_mem _ hmem)
    · exact absurd hrun' (not_running_of_over hover hturn)
  | stdin =>
    have hopen : s.cli.stdineof = false := by
      refine Bool.eq_false_iff.mpr fun heof => ?_
      obtain hnone | ⟨hhead, -⟩ := hlast heof
      · exact hnone List.mem_cons_self
      · cases hhead
    exact ⟨closes_stdin h.closes hopen hturn, hnodup, fun _ _ => .inl hnot⟩

theorem finds_step (s : Sys) (a : Act) (s' : Sys) (h : Finds s) (hfinds : FindsEnd s a)
    (hs : step s a = some s') : Finds s' := by
  cases a with
  | event fd e =>
    obtain ⟨cli, hon, rfl⟩ := Option.map_eq_some_iff.mp hs
    obtain ⟨hkeeps, hstatus⟩ := keeps_on hon
    refine ⟨h.closes.keeps hkeeps, h.nodup, fun hrun heof => ?_⟩
    obtain hnone | ⟨hhead, hover⟩ :=
      h.last (hstatus.symm.trans hrun) (hkeeps.stdineof.symm.trans heof)
    · exact .inl hnone
    · exact .inr ⟨hhead, over_on hover hon⟩
  | ioctl res =>
    obtain ⟨-, hs⟩ := Option.ite_none_right_eq_some.mp hs
    cases res with
    | error e =>
      cases hs
      refine ⟨h.closes.keeps ⟨rfl, rfl, rfl⟩, h.nodup, fun hrun => ?_⟩
      cases hrun
    | ok fds =>
      obtain ⟨⟨-, hperm⟩, hs⟩ := Option.ite_none_right_eq_some.mp hs
      cases hs
      refine ⟨h.closes, nodup_of_perm hperm, fun _ heof => .inr ?_⟩
      obtain ⟨hhead, hqueue⟩ := hfinds heof
      exact ⟨hhead, over_of_findsEnd hperm hhead hqueue⟩
  | turn res ok =>
    obtain ⟨hrun, hs⟩ := Option.ite_none_right_eq_some.mp hs
    split at hs
    · cases hs
    · next fd ready hready =>
      obtain ⟨cli, hturn, rfl⟩ := Option.map_eq_some_iff.mp hs
      exact finds_turn h hrun hready hturn

theorem finds_init : Finds init where
  closes := closes_init
  nodup := List.nodup_nil
  last _ h := by cases h

theorem ended_step (s : Sys) (a : Act) (s' : Sys) (h : Ended s.cli) (hs : step s a = some s') :
    Ended s'.cli := by
  cases a with
  | event fd e =>
    obtain ⟨cli, hon, rfl⟩ := Option.map_eq_some_iff.mp hs
    exact ended_on h hon
  | ioctl res =>
    obtain ⟨-, hs⟩ := Option.ite_none_right_eq_some.mp hs
    cases res with
    | error e =>
      cases hs
      exact h.keeps ⟨rfl, rfl, rfl⟩ fun hqueue hended => ⟨hqueue, hended⟩
    | ok fds =>
      obtain ⟨-, hs⟩ := Option.ite_none_right_eq_some.mp hs
      cases hs
      exact h
  | turn res ok =>
    obtain ⟨-, hs⟩ := Option.ite_none_right_eq_some.mp hs
    split at hs
    · cases hs
    · obtain ⟨cli, hturn, rfl⟩ := Option.map_eq_some_iff.mp hs
      exact ended_turn h hturn

/-! The condition is needed -/

/-- Standard input is the next descriptor of the inner loop. -/
theorem again_of_ready {s : Sys} {ready : List Fd} (h : Ended s.cli)
    (hrun : s.cli.status = .running) (heof : s.cli.stdineof = true)
    (hready : s.ready = .stdin :: ready) :
    ∃ u, exec step s [.turn (.ok 0) true] = some u ∧ 2 ≤ u.cli.shutdowns ∧
      .ok 0 ∈ u.cli.reads.dropLast := by
  obtain ⟨cli, hturn, htwice⟩ := turn_stdin_again h heof
  refine ⟨⟨cli, ready⟩, ?_, htwice⟩
  simp only [exec, step, hrun, hready, hturn, if_true, Option.map_some, Option.bind_some]

/-- A byte of the server is written to standard output. -/
theorem turn_sock_byte {c : Cli} (hqueue : c.sock.queue ≠ []) :
    ∃ c', c.turn .sock (.ok 1) true = some c' ∧ c'.status = c.status := by
  have hpos : 1 ≤ c.sock.queue.length := List.length_pos_iff.mpr hqueue
  have hread : c.sock.readOk 1 = true := by
    rw [Desc.readOk, if_neg (by decide), decide_eq_true_eq]
    exact ⟨by decide, hpos⟩
  refine ⟨c.gotReply 1 true, ?_, rfl⟩
  simp only [Cli.turn, hread, if_true]

/-- **A poll that does not find the connection over** leads to a second `Shutdown`. -/
theorem again_of_not_findsEnd {s t : Sys} {fds : List Fd} (h : Ended s.cli)
    (hs : step s (.ioctl (.ok fds)) = some t) (hnot : ¬FindsEnd s (.ioctl (.ok fds))) :
    ∃ run u, exec step t run = some u ∧ 2 ≤ u.cli.shutdowns ∧
      .ok 0 ∈ u.cli.reads.dropLast := by
  obtain ⟨⟨hrun, -⟩, hs⟩ := Option.ite_none_right_eq_some.mp hs
  obtain ⟨⟨-, hperm⟩, hs⟩ := Option.ite_none_right_eq_some.mp hs
  cases hs
  simp only [FindsEnd, Classical.not_imp, not_and] at hnot
  obtain ⟨heof, hnot⟩ := hnot
  have hmem : .stdin ∈ fds := by
    rw [readable_of_perm hperm]
    show s.cli.input.readable = true
    rw [Desc.readable, (h heof).2.1, Bool.or_true, Bool.true_or]
  cases fds with
  | nil => cases hmem
  | cons fd ready =>
    cases fd with
    | stdin => exact ⟨_, again_of_ready h hrun heof rfl⟩
    | sock =>
      -- the server has sent something, and standard input comes behind the socket
      obtain ⟨cli, hturn, hstatus⟩ := turn_sock_byte (hnot rfl)
      have hstep : step { s with ready := .sock :: ready } (.turn (.ok 1) true)
          = some ⟨cli, ready⟩ := by
        simp only [step, hrun, hturn, if_true, Option.map_some]
      cases ready with
      | nil => cases hmem with | tail _ hmem => cases hmem
      | cons fd ready =>
        cases fd with
        | sock => exact absurd List.mem_cons_self (List.nodup_cons.mp (nodup_of_perm hperm)).1
        | stdin =>
          obtain ⟨u, hexec, htwice⟩ :=
            @again_of_ready ⟨cli, .stdin :: ready⟩ ready (ended_turn h hturn)
              (hstatus.trans hrun) ((keeps_sock hturn).1.stdineof.trans heof) rfl
          exact ⟨_ :: _, u, exec_cons_eq_some.mpr ⟨_, hstep, hexec⟩, htwice⟩

end Poll

/-- **In which runs the half is closed once.**  The version over `/dev/poll` calls `Shutdown`
once at most and does not read standard input behind its end of file, in every run in which
each poll made behind the end of standard input reports the socket first, with nothing left
to read in it; after any other answer to such a poll it may go on to read standard input
again and to call `Shutdown` a second time.  The version over `select` does neither in any
run. -/
theorem half_closes_once (run : List Poll.Act) (s : Poll.Sys)
    (h : exec Poll.step Poll.init run = some s) :
    (Along Poll.step Poll.FindsEnd Poll.init run → s.cli.Once) ∧
    (∀ fds t, Poll.step s (.ioctl (.ok fds)) = some t → ¬Poll.FindsEnd s (.ioctl (.ok fds)) →
      ∃ more u, exec Poll.step t more = some u ∧ 2 ≤ u.cli.shutdowns ∧
        .ok 0 ∈ u.cli.reads.dropLast) ∧
    ∀ run s, exec Select.step Select.init run = some s → s.cli.Once := by
  refine ⟨fun halong => ?_, fun fds t hs hnot => ?_,
    fun run s hrun => Select.once_of_reachable ⟨run, hrun⟩⟩
  · exact (exec_invariant_along Poll.finds_step run _ s Poll.finds_init halong h).closes.once
  · refine Poll.again_of_not_findsEnd (exec_invariant Poll.ended_step ?_ ⟨run, h⟩) hs hnot
    intro heof
    cases heof

/-- The server closes as soon as the client has. -/
def promptRun : List Poll.Act :=
  [.event .stdin .close, .ioctl (.ok [.stdin]), .turn (.ok 0) true, .event .sock .close,
    .ioctl (.ok [.sock, .stdin]), .turn (.ok 0) true]

theorem half_closes_once_promptRun : ∃ s, exec Poll.step Poll.init promptRun = some s ∧
    s.cli.status = .returned ∧ s.cli.shutdowns = 1 ∧ s.cli.Once := by
  obtain ⟨s, hs, hfacts⟩ := Option.map_eq_some_iff.mp
    (show (exec Poll.step Poll.init promptRun).map (fun s => (s.cli.status, s.cli.shutdowns))
      = some (.returned, 1) by decide)
  simp only [Prod.mk.injEq] at hfacts
  exact ⟨s, hs, hfacts.1, hfacts.2, (half_closes_once promptRun s hs).1 (by decide)⟩

/-- The server has one more byte to send behind the client's end of file. -/
def lateReplyRun : List Poll.Act :=
  [.event .stdin .close, .ioctl (.ok [.stdin]), .turn (.ok 0) true, .event .sock (.arrive [97]),
    .ioctl (.ok [.sock, .stdin]), .turn (.ok 1) true, .turn (.ok 0) true]

/-- **A second `Shutdown`**: standard input is read again after its end of file, since it is
still registered. -/
theorem second_shutdown : ∃ s, exec Poll.step Poll.init lateReplyRun = some s ∧
    s.cli.shutdowns = 2 ∧ s.cli.reads = [.ok 0, .ok 0] ∧ s.cli.stdout = [97] := by
  obtain ⟨s, hs, hfacts⟩ := Option.map_eq_some_iff.mp
    (show (exec Poll.step Poll.init lateReplyRun).map
        (fun s => (s.cli.shutdowns, s.cli.reads, s.cli.stdout))
      = some (2, [.ok 0, .ok 0], [97]) by decide)
  simp only [Prod.mk.injEq] at hfacts
  exact ⟨s, hs, hfacts⟩

end TcpIp.Advio
