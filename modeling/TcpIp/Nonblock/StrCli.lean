import TcpIp.Kernel
import TcpIp.Lib.Buffer
import TcpIp.Lib.Run

/-!
# The client with nonblocking descriptors

`str_cli` of `nonblock/strclinonb.c` copies standard input to a socket and the socket to
standard output.  No call blocks: the bytes that cannot be written yet stay in a buffer,
one for each direction, and `select` is asked only for what there is room or data for.
Within one turn of the loop a descriptor that has just been given something to write is
tried at once, without asking `select`.

An action is one system call and what the program does up to the next one.  What is
read and written is recorded for each of the four ends.

## Main definitions

* `Sys`, `Act`, `step`, `init` — the system.
* `Copies` — the two buffers hold what has been read and not written.

## Main results

* `copies_faithfully` — nothing is lost, added or reordered, and no `read` of no bytes is
  made.
* `replies_written` — when everything has been written at the end.
-/

namespace TcpIp
namespace StrCli

open Run Buffer

/-- `MAXLINE`. -/
def maxLine : ℕ := 4096

/-- Where the program is. -/
inductive Pc where
  /-- About to set up the descriptor sets and to call `Select`. -/
  | select
  /-- At the test of standard input. -/
  | stdin
  /-- At the test of the socket for reading. -/
  | sock
  /-- At the test of standard output. -/
  | stdout
  /-- At the test of the socket for writing. -/
  | sockW
  /-- `str_cli` has returned. -/
  | returned
  /-- `err_sys` or `err_quit` has been called. -/
  | exited
  deriving DecidableEq, Repr

structure Sys where
  /-- `to`, with `toiptr` and `tooptr`. -/
  toBuf : Buf UInt8
  /-- `fr`, with `friptr` and `froptr`. -/
  frBuf : Buf UInt8
  stdineof : Bool
  /-- The bits of `rset`. -/
  rStdin : Bool
  rSock : Bool
  /-- The bits of `wset`. -/
  wStdout : Bool
  wSock : Bool
  pc : Pc
  /-- How often `Shutdown` has been called. -/
  shutdowns : ℕ
  fromStdin : List UInt8
  toSock : List UInt8
  fromSock : List UInt8
  toStdout : List UInt8

inductive Act where
  /-- `Select` returns, and these descriptors are ready if it was asked for them. -/
  | select (rStdin rSock wStdout wSock : Bool)
  /-- The descriptor is not in the set, or there is nothing to write. -/
  | skip
  /-- `read` returns these bytes; none are the end of file. -/
  | read (res : Except Errno (List UInt8))
  /-- `write` returns this number of bytes. -/
  | write (res : Except Errno ℕ)

/-! ### The program -/

namespace Sys

/-- The sets, as `Select` returns them. -/
def selected (s : Sys) (rStdin rSock wStdout wSock : Bool) : Sys :=
  { s with
    rStdin := decide (s.stdineof = false ∧ s.toBuf.iptr < maxLine) && rStdin
    rSock := decide (s.frBuf.iptr < maxLine) && rSock
    wSock := decide (s.toBuf.optr ≠ s.toBuf.iptr) && wSock
    wStdout := decide (s.frBuf.optr ≠ s.frBuf.iptr) && wStdout
    pc := .stdin }

/-- After the `read` from standard input. -/
def readStdin (s : Sys) : Except Errno (List UInt8) → Sys
  | .error .eagain => { s with pc := .sock }
  | .error _ => { s with pc := .exited }
  | .ok [] =>
    { s with
      stdineof := true
      shutdowns := if s.toBuf.optr = s.toBuf.iptr then s.shutdowns + 1 else s.shutdowns
      pc := .sock }
  | .ok bs =>
    { s with toBuf := s.toBuf.put bs, wSock := true, fromStdin := s.fromStdin ++ bs, pc := .sock }

/-- After the `read` from the socket. -/
def readSock (s : Sys) : Except Errno (List UInt8) → Sys
  | .error .eagain => { s with pc := .stdout }
  | .error _ => { s with pc := .exited }
  | .ok [] => { s with pc := if s.stdineof then .returned else .exited }
  | .ok bs =>
    { s with frBuf := s.frBuf.put bs, wStdout := true, fromSock := s.fromSock ++ bs, pc := .stdout }

/-- After the `write` to standard output. -/
def writeStdout (s : Sys) : Except Errno ℕ → Sys
  | .error .eagain => { s with pc := .sockW }
  | .error _ => { s with pc := .exited }
  | .ok nwritten =>
    { s with
      frBuf := s.frBuf.take nwritten
      toStdout := s.toStdout ++ s.frBuf.pending.take nwritten
      pc := .sockW }

/-- After the `write` to the socket. -/
def writeSock (s : Sys) : Except Errno ℕ → Sys
  | .error .eagain => { s with pc := .select }
  | .error _ => { s with pc := .exited }
  | .ok nwritten =>
    { s with
      toBuf := s.toBuf.take nwritten
      toSock := s.toSock ++ s.toBuf.pending.take nwritten
      shutdowns :=
        if s.toBuf.optr + nwritten = s.toBuf.iptr ∧ s.stdineof = true then s.shutdowns + 1
        else s.shutdowns
      pc := .select }

end Sys

/-- What a `read` into a buffer may return. -/
def readable (b : Buf UInt8) : Except Errno (List UInt8) → Bool
  | .ok bs => decide (bs.length ≤ maxLine - b.iptr)
  | .error _ => true

/-- What a `write` from a buffer may return. -/
def writable (b : Buf UInt8) : Except Errno ℕ → Bool
  | .ok nwritten => decide (nwritten ≤ b.iptr - b.optr)
  | .error _ => true

/-- The transition function. -/
def step (s : Sys) (a : Act) : Option Sys :=
  match s.pc, a with
  | .select, .select rStdin rSock wStdout wSock =>
    let t := s.selected rStdin rSock wStdout wSock
    if t.rStdin || t.rSock || t.wStdout || t.wSock then some t else none
  | .stdin, .read res =>
    if s.rStdin && readable s.toBuf res then some (s.readStdin res) else none
  | .stdin, .skip => if s.rStdin then none else some { s with pc := .sock }
  | .sock, .read res => if s.rSock && readable s.frBuf res then some (s.readSock res) else none
  | .sock, .skip => if s.rSock then none else some { s with pc := .stdout }
  | .stdout, .write res =>
    if s.wStdout && decide (0 < s.frBuf.iptr - s.frBuf.optr) && writable s.frBuf res then
      some (s.writeStdout res)
    else none
  | .stdout, .skip =>
    if s.wStdout && decide (0 < s.frBuf.iptr - s.frBuf.optr) then none
    else some { s with pc := .sockW }
  | .sockW, .write res =>
    if s.wSock && decide (0 < s.toBuf.iptr - s.toBuf.optr) && writable s.toBuf res then
      some (s.writeSock res)
    else none
  | .sockW, .skip =>
    if s.wSock && decide (0 < s.toBuf.iptr - s.toBuf.optr) then none
    else some { s with pc := .select }
  | _, _ => none

/-- What a step does, with what is known of the state before it. -/
inductive Trans (s : Sys) : Act → Sys → Prop
  | select (hpc : s.pc = .select) (rStdin rSock wStdout wSock : Bool) :
    Trans s (.select rStdin rSock wStdout wSock) (s.selected rStdin rSock wStdout wSock)
  | readStdin (hpc : s.pc = .stdin) {res : Except Errno (List UInt8)}
      (hres : readable s.toBuf res = true) : Trans s (.read res) (s.readStdin res)
  | skipStdin (hpc : s.pc = .stdin) : Trans s .skip { s with pc := .sock }
  | readSock (hpc : s.pc = .sock) {res : Except Errno (List UInt8)}
      (hres : readable s.frBuf res = true) : Trans s (.read res) (s.readSock res)
  | skipSock (hpc : s.pc = .sock) : Trans s .skip { s with pc := .stdout }
  | writeStdout (hpc : s.pc = .stdout) {res : Except Errno ℕ}
      (hres : writable s.frBuf res = true) : Trans s (.write res) (s.writeStdout res)
  | skipStdout (hpc : s.pc = .stdout) (hidle : s.wStdout = true → s.frBuf.iptr ≤ s.frBuf.optr) :
    Trans s .skip { s with pc := .sockW }
  | writeSock (hpc : s.pc = .sockW) {res : Except Errno ℕ}
      (hres : writable s.toBuf res = true) : Trans s (.write res) (s.writeSock res)
  | skipSockW (hpc : s.pc = .sockW) : Trans s .skip { s with pc := .select }

theorem trans_of_step {s s' : Sys} {a : Act} (hs : step s a = some s') : Trans s a s' := by
  unfold step at hs
  split at hs
  · next hpc =>
    simp only at hs
    split at hs <;> cases hs
    exact .select hpc ..
  · next hpc =>
    split at hs <;> cases hs
    next hguard => exact .readStdin hpc ((Bool.and_eq_true _ _).mp hguard).2
  · next hpc =>
    split at hs <;> cases hs
    exact .skipStdin hpc
  · next hpc =>
    split at hs <;> cases hs
    next hguard => exact .readSock hpc ((Bool.and_eq_true _ _).mp hguard).2
  · next hpc =>
    split at hs <;> cases hs
    exact .skipSock hpc
  · next hpc =>
    split at hs <;> cases hs
    next hguard => exact .writeStdout hpc ((Bool.and_eq_true _ _).mp hguard).2
  · next hpc =>
    split at hs <;> cases hs
    next hidle =>
      refine .skipStdout hpc fun hbit => ?_
      simp only [hbit, Bool.true_and, decide_eq_true_eq] at hidle
      omega
  · next hpc =>
    split at hs <;> cases hs
    next hguard => exact .writeSock hpc ((Bool.and_eq_true _ _).mp hguard).2
  · next hpc =>
    split at hs <;> cases hs
    exact .skipSockW hpc
  · cases hs

/-- The state before the loop; the arrays hold anything. -/
def init (tobuf frbuf : Vector UInt8 maxLine) : Sys where
  toBuf := .empty tobuf.toList
  frBuf := .empty frbuf.toList
  stdineof := false
  rStdin := false
  rSock := false
  wStdout := false
  wSock := false
  pc := .select
  shutdowns := 0
  fromStdin := []
  toSock := []
  fromSock := []
  toStdout := []

/-! ### Copying -/

/-- The buffers hold what has been read and not written, and a descriptor is in `rset`
only if there is room for what is read from it. -/
structure Copies (s : Sys) : Prop where
  to_carries : s.toBuf.Carries maxLine s.fromStdin s.toSock
  fr_carries : s.frBuf.Carries maxLine s.fromSock s.toStdout
  stdin_room : s.pc = .stdin → s.rStdin = true → s.toBuf.iptr < maxLine
  sock_room : s.pc = .stdin ∨ s.pc = .sock → s.rSock = true → s.frBuf.iptr < maxLine

theorem copies_init (tobuf frbuf : Vector UInt8 maxLine) : Copies (init tobuf frbuf) where
  to_carries := Buf.carries_empty tobuf.length_toList
  fr_carries := Buf.carries_empty frbuf.length_toList
  stdin_room := by nofun
  sock_room := by simp [init]

section

variable {s : Sys}

/-- A step that leaves the buffers alone. -/
theorem Copies.goto (h : Copies s) {pc : Pc} {stdineof : Bool} {shutdowns : ℕ}
    (hstdin : pc ≠ .stdin) (hsock : pc = .sock → s.pc = .stdin) :
    Copies { s with pc, stdineof, shutdowns } :=
  { h with
    stdin_room := fun hpc => absurd hpc hstdin
    sock_room := by
      rintro (hpc | hpc) hbit
      · exact absurd hpc hstdin
      · exact h.sock_room (.inl (hsock hpc)) hbit }

theorem Copies.selected (h : Copies s) (rStdin rSock wStdout wSock : Bool) :
    Copies (s.selected rStdin rSock wStdout wSock) where
  to_carries := h.to_carries
  fr_carries := h.fr_carries
  stdin_room := by
    intro _ hbit
    simp only [Sys.selected, Bool.and_eq_true, decide_eq_true_eq] at hbit
    exact hbit.1.2
  sock_room := by
    intro _ hbit
    simp only [Sys.selected, Bool.and_eq_true, decide_eq_true_eq] at hbit
    exact hbit.1

theorem Copies.readStdin (h : Copies s) {res : Except Errno (List UInt8)} (hpc : s.pc = .stdin)
    (hres : readable s.toBuf res = true) : Copies (s.readStdin res) := by
  have hle := h.to_carries.iptr_le
  unfold Sys.readStdin
  split
  · exact h.goto (by nofun) fun _ => hpc
  · exact h.goto (by nofun) (by nofun)
  · exact h.goto (by nofun) fun _ => hpc
  · next bs _ =>
    simp only [readable, decide_eq_true_eq] at hres
    exact { h with
      to_carries := h.to_carries.put (by omega)
      stdin_room := by nofun
      sock_room := fun _ hbit => h.sock_room (.inl hpc) hbit }

theorem Copies.readSock (h : Copies s) {res : Except Errno (List UInt8)}
    (hres : readable s.frBuf res = true) : Copies (s.readSock res) := by
  have hle := h.fr_carries.iptr_le
  unfold Sys.readSock
  split
  · exact h.goto (by nofun) (by nofun)
  · exact h.goto (by nofun) (by nofun)
  · split
    · exact h.goto (by nofun) (by nofun)
    · exact h.goto (by nofun) (by nofun)
  · next bs _ =>
    simp only [readable, decide_eq_true_eq] at hres
    exact { h with
      fr_carries := h.fr_carries.put (by omega)
      stdin_room := by nofun
      sock_room := by simp }

theorem Copies.writeStdout (h : Copies s) {res : Except Errno ℕ}
    (hres : writable s.frBuf res = true) : Copies (s.writeStdout res) := by
  unfold Sys.writeStdout
  split
  · exact h.goto (by nofun) (by nofun)
  · exact h.goto (by nofun) (by nofun)
  · next nwritten =>
    simp only [writable, decide_eq_true_eq] at hres
    exact { h with
      fr_carries := h.fr_carries.take (by rw [h.fr_carries.length_pending]; exact hres)
      stdin_room := by nofun
      sock_room := by simp }

theorem Copies.writeSock (h : Copies s) {res : Except Errno ℕ}
    (hres : writable s.toBuf res = true) : Copies (s.writeSock res) := by
  unfold Sys.writeSock
  split
  · exact h.goto (by nofun) (by nofun)
  · exact h.goto (by nofun) (by nofun)
  · next nwritten =>
    simp only [writable, decide_eq_true_eq] at hres
    exact { h with
      to_carries := h.to_carries.take (by rw [h.to_carries.length_pending]; exact hres)
      stdin_room := by nofun
      sock_room := by simp }

end

/-- **Every step keeps the buffers in order.** -/
theorem copies_step (s : Sys) (a : Act) (s' : Sys) (h : Copies s) (hs : step s a = some s') :
    Copies s' := by
  cases trans_of_step hs with
  | select _ rStdin rSock wStdout wSock => exact h.selected rStdin rSock wStdout wSock
  | readStdin hpc hres => exact h.readStdin hpc hres
  | skipStdin hpc => exact h.goto (by nofun) fun _ => hpc
  | readSock _ hres => exact h.readSock hres
  | skipSock => exact h.goto (by nofun) (by nofun)
  | writeStdout _ hres => exact h.writeStdout hres
  | skipStdout => exact h.goto (by nofun) (by nofun)
  | writeSock _ hres => exact h.writeSock hres
  | skipSockW => exact h.goto (by nofun) (by nofun)

/-- **Faithful copies.**  In every reachable state: what has been written to the socket is
an initial part of what has been read from standard input, and what has been written to
standard output of what has been read from the socket; in each buffer the out pointer is
not behind the in pointer, which is not behind the end, and the bytes between them are
those read and not written; and a `read` is made only if there is room for some bytes. -/
theorem copies_faithfully (tobuf frbuf : Vector UInt8 maxLine) (s : Sys)
    (h : Reachable step (init tobuf frbuf) s) :
    (s.toSock <+: s.fromStdin ∧ s.toStdout <+: s.fromSock) ∧
    (s.toBuf.optr ≤ s.toBuf.iptr ∧ s.toBuf.iptr ≤ maxLine ∧
      s.fromStdin = s.toSock ++ (s.toBuf.mem.take s.toBuf.iptr).drop s.toBuf.optr) ∧
    (s.frBuf.optr ≤ s.frBuf.iptr ∧ s.frBuf.iptr ≤ maxLine ∧
      s.fromSock = s.toStdout ++ (s.frBuf.mem.take s.frBuf.iptr).drop s.frBuf.optr) ∧
    (∀ res s', s.pc = .stdin → step s (.read res) = some s' → 0 < maxLine - s.toBuf.iptr) ∧
    (∀ res s', s.pc = .sock → step s (.read res) = some s' → 0 < maxLine - s.frBuf.iptr) := by
  have hcopies : Copies s := exec_invariant copies_step (copies_init tobuf frbuf) h
  have hto := hcopies.to_carries
  have hfr := hcopies.fr_carries
  refine ⟨⟨hto.isPrefix, hfr.isPrefix⟩, ⟨hto.optr_le, hto.iptr_le, hto.taken_eq⟩,
    ⟨hfr.optr_le, hfr.iptr_le, hfr.taken_eq⟩, ?_, ?_⟩
  · intro res s' hpc hs
    simp only [step, hpc] at hs
    split at hs
    · next hguard =>
      rw [Bool.and_eq_true] at hguard
      exact Nat.sub_pos_of_lt (hcopies.stdin_room hpc hguard.1)
    · cases hs
  · intro res s' hpc hs
    simp only [step, hpc] at hs
    split at hs
    · next hguard =>
      rw [Bool.and_eq_true] at hguard
      exact Nat.sub_pos_of_lt (hcopies.sock_room (.inr hpc) hguard.1)
    · cases hs

/-- Two bytes are read from standard input, and one of them is written to the socket at
once. -/
def partialRun : List Act :=
  [.select true false false false, .read (.ok [104, 105]), .skip, .skip, .write (.ok 1)]

theorem copies_faithfully_partialRun :
    ∃ s, exec step (init (.replicate maxLine 0) (.replicate maxLine 0)) partialRun = some s ∧
      s.toSock = [104] ∧ s.fromStdin = [104, 105] ∧ s.toSock <+: s.fromStdin ∧
      s.fromStdin = s.toSock ++ (s.toBuf.mem.take s.toBuf.iptr).drop s.toBuf.optr := by
  obtain ⟨s, hs, hfacts⟩ := Option.map_eq_some_iff.mp
    (show (exec step (init (.replicate maxLine 0) (.replicate maxLine 0)) partialRun).map
      (fun s => (s.toSock, s.fromStdin)) = some ([104], [104, 105]) by decide)
  simp only [Prod.mk.injEq] at hfacts
  have hcopies := copies_faithfully _ _ s ⟨partialRun, hs⟩
  exact ⟨s, hs, hfacts.1, hfacts.2, hcopies.1.1, hcopies.2.1.2.2⟩

/-! ### The end of the copy -/

/-- When the end of the replies is read, after the end of standard input, nothing is left
in `fr`. -/
def Drained (s : Sys) (a : Act) : Prop :=
  s.pc = .sock → s.stdineof = true → a = .read (.ok []) → s.frBuf.optr = s.frBuf.iptr

/-- Standard output takes everything it is given. -/
def Accepting (s : Sys) (a : Act) : Prop :=
  s.pc = .stdout → ∀ res, a = .write res → res = .ok (s.frBuf.iptr - s.frBuf.optr)

/-- If the function has returned, everything read from the socket has been written. -/
def Complete (s : Sys) : Prop := s.pc = .returned → s.toStdout = s.fromSock

/-- The function returns at one place only. -/
theorem pc_returned {s s' : Sys} {a : Act} (hs : step s a = some s') (hpc : s'.pc = .returned) :
    s.pc = .sock ∧ s.stdineof = true ∧ a = .read (.ok []) ∧ s'.frBuf = s.frBuf ∧
      s'.fromSock = s.fromSock ∧ s'.toStdout = s.toStdout := by
  cases trans_of_step hs with
  | readSock hsock =>
    unfold Sys.readSock at hpc
    split at hpc
    · cases hpc
    · cases hpc
    · simp only at hpc
      split at hpc
      · next heof => exact ⟨hsock, heof, rfl, rfl, rfl, rfl⟩
      · cases hpc
    · cases hpc
  | readStdin =>
    unfold Sys.readStdin at hpc
    split at hpc <;> cases hpc
  | writeStdout =>
    unfold Sys.writeStdout at hpc
    split at hpc <;> cases hpc
  | writeSock =>
    unfold Sys.writeSock at hpc
    split at hpc <;> cases hpc
  | select | skipStdin | skipSock | skipStdout | skipSockW => cases hpc

theorem step_returned {s : Sys} (h : s.pc = .returned) (a : Act) : step s a = none := by
  cases a <;> simp [step, h]

/-- A step keeps the copy complete exactly if it is not the end of the replies with
something left to write. -/
theorem complete_step (s : Sys) (a : Act) (s' : Sys) (h : Copies s) (hs : step s a = some s') :
    Complete s' ↔ Complete s ∧ Drained s a := by
  have hbefore : s.pc ≠ .returned := by
    intro hpc
    rw [step_returned hpc] at hs
    cases hs
  have hcomplete : Complete s := fun hpc => absurd hpc hbefore
  constructor
  · intro hafter
    refine ⟨hcomplete, ?_⟩
    intro hpc heof hread
    subst hread
    simp only [step, hpc] at hs
    split at hs
    · cases hs
      have heq : s.toStdout = s.fromSock := hafter (by simp [Sys.readSock, heof])
      exact h.fr_carries.eq_iff.mp heq
    · cases hs
  · rintro ⟨-, hdrained⟩ hreturned
    obtain ⟨hpc, heof, hread, -, hfrom, hto⟩ := pc_returned hs hreturned
    rw [hfrom, hto]
    exact h.fr_carries.eq_iff.mpr (hdrained hpc heof hread)

/-- Where `fr` is empty if standard output takes everything. -/
def Sys.Prompt (s : Sys) : Prop :=
  match s.pc with
  | .stdout => s.frBuf.optr = s.frBuf.iptr ∨ s.wStdout = true
  | .exited => True
  | _ => s.frBuf.optr = s.frBuf.iptr

theorem prompt_step (s : Sys) (a : Act) (s' : Sys) (hcopies : Copies s) (h : s.Prompt)
    (haccepting : Accepting s a) (hs : step s a = some s') : s'.Prompt := by
  have hle := hcopies.fr_carries.optr_le
  unfold Sys.Prompt at h
  cases trans_of_step hs with
  | select hpc | skipStdin hpc | skipSockW hpc =>
    rw [hpc] at h
    exact h
  | readStdin hpc =>
    rw [hpc] at h
    unfold Sys.readStdin
    split
    · exact h
    · trivial
    · exact h
    · exact h
  | readSock hpc =>
    rw [hpc] at h
    unfold Sys.readSock
    split
    · exact .inl h
    · trivial
    · cases s.stdineof with
      | true => exact h
      | false => trivial
    · exact .inr rfl
  | skipSock hpc =>
    rw [hpc] at h
    exact .inl h
  | writeStdout hpc =>
    -- everything is written, and the pointers go back to the start
    rw [haccepting hpc _ rfl]
    have hall : s.frBuf.optr + (s.frBuf.iptr - s.frBuf.optr) = s.frBuf.iptr := by omega
    simp [Sys.writeStdout, Sys.Prompt, Buf.take, hall]
  | skipStdout hpc hidle =>
    rw [hpc] at h
    rcases h with hempty | hbit
    · exact hempty
    · exact Nat.le_antisymm hle (hidle hbit)
  | writeSock hpc =>
    rw [hpc] at h
    unfold Sys.writeSock
    split
    · exact h
    · trivial
    · exact h

/-- **What has been written at the end.**  In every run: if the function has returned,
then everything read from the socket has been written to standard output exactly if
nothing was left in `fr` when the end of the replies was read; and this is so if every
`write` to standard output takes all the bytes it is given. -/
theorem replies_written (tobuf frbuf : Vector UInt8 maxLine) (run : List Act) (s : Sys)
    (h : exec step (init tobuf frbuf) run = some s) :
    ((s.pc = .returned → s.toStdout = s.fromSock) ↔ Along step Drained (init tobuf frbuf) run) ∧
    (Along step Accepting (init tobuf frbuf) run → s.pc = .returned → s.toStdout = s.fromSock) := by
  constructor
  · have hiff := exec_iff_along copies_step complete_step run (init tobuf frbuf) s
      (copies_init tobuf frbuf) h
    have hinit : Complete (init tobuf frbuf) := by nofun
    exact hiff.trans (and_iff_right hinit)
  · intro haccepting hpc
    have hinv : Copies s ∧ s.Prompt :=
      exec_invariant_along (I := fun s => Copies s ∧ s.Prompt)
        (fun s a s' ⟨hcopies, hprompt⟩ hacc hs =>
          ⟨copies_step s a s' hcopies hs, prompt_step s a s' hcopies hprompt hacc hs⟩)
        run (init tobuf frbuf) s ⟨copies_init tobuf frbuf, rfl⟩ haccepting h
    have hprompt := hinv.2
    rw [Sys.Prompt, hpc] at hprompt
    exact hinv.1.fr_carries.eq_iff.mpr hprompt

/-- Standard output is not ready when a reply arrives, and ready before the end of the
replies. -/
def slowRun : List Act :=
  [.select true false false false, .read (.ok []), .skip, .skip, .skip,
   .select false true false false, .skip, .read (.ok [120]), .write (.error .eagain), .skip,
   .select false false true false, .skip, .skip, .write (.ok 1), .skip,
   .select false true false false, .skip, .read (.ok [])]

theorem replies_written_slowRun :
    ∃ s, exec step (init (.replicate maxLine 0) (.replicate maxLine 0)) slowRun = some s ∧
      s.pc = .returned ∧ s.toStdout = s.fromSock ∧
      Along step Drained (init (.replicate maxLine 0) (.replicate maxLine 0)) slowRun := by
  obtain ⟨s, hs, hfacts⟩ := Option.map_eq_some_iff.mp
    (show (exec step (init (.replicate maxLine 0) (.replicate maxLine 0)) slowRun).map
      (fun s => (s.pc, s.toStdout, s.fromSock)) = some (.returned, [120], [120]) by decide)
  simp only [Prod.mk.injEq] at hfacts
  obtain ⟨hpc, hto, hfrom⟩ := hfacts
  have hwritten := replies_written _ _ slowRun s hs
  have heq : s.toStdout = s.fromSock := hto.trans hfrom.symm
  exact ⟨s, hs, hpc, heq, hwritten.1.mp fun _ => heq⟩

/-- Standard output is not ready when a reply arrives, and the end of the replies follows:
the function returns, and the reply has not been written. -/
theorem reply_lost :
    ∃ s, exec step (init (.replicate maxLine 0) (.replicate maxLine 0))
        [.select true false false false, .read (.ok []), .skip, .skip, .skip,
         .select false true false false, .skip, .read (.ok [120]), .write (.error .eagain), .skip,
         .select false true false false, .skip, .read (.ok [])] = some s ∧
      s.pc = .returned ∧ s.fromSock = [120] ∧ s.toStdout = [] := by
  obtain ⟨s, hs, hfacts⟩ := Option.map_eq_some_iff.mp
    (show (exec step (init (.replicate maxLine 0) (.replicate maxLine 0))
        [.select true false false false, .read (.ok []), .skip, .skip, .skip,
         .select false true false false, .skip, .read (.ok [120]), .write (.error .eagain), .skip,
         .select false true false false, .skip, .read (.ok [])]).map
      (fun s => (s.pc, s.fromSock, s.toStdout)) = some (.returned, [120], []) by decide)
  simp only [Prod.mk.injEq] at hfacts
  exact ⟨s, hs, hfacts⟩

end StrCli
end TcpIp
