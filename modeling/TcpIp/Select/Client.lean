import TcpIp.Lib.Run
import TcpIp.Readline.Stream

/-!
# The line client over `select`

`advio/str_cli_select02.c` waits in `select` for its standard input and its socket,
writes one line to standard output when the socket is readable, and sends one line when
the input is.  The line comes from the library's `Readline`, whose static buffer holds
whatever else the last `read` returned.  `select` does not know of that buffer: a line
in it waits until the kernel has something for the socket again.

As in the server, an action is one system call or one step of `readline`, so that the
server may send at any point.

## Main definitions

* `Sys`, `Act`, `step`, `init` — the client and its socket.
* `Sys.Stranded` — about to block in `select` with a complete line in the buffer.
* `OneLine` — a `read` that empties the socket brings no line beyond the current one.

## Main results

* `not_stranded_of_oneLine` — no line is stranded if every `read` is like that.
* `stranded_of_read` — and every other `read` may strand one.
* `second_line_stranded` — two lines in one segment.
-/

namespace TcpIp.Select.Client

open Readline Cut Run

/-- Where the client is. -/
inductive Pc where
  /-- About to call `Select`. -/
  | select
  /-- In the loop of `readline`, about to get a byte. -/
  | reading (n ptr : ℕ)
  /-- About to call `Fputs`. -/
  | fputs
  /-- About to test whether the input is readable. -/
  | stdin
  /-- About to call `Fgets`. -/
  | fgets
  /-- About to call `Writen`. -/
  | writen
  /-- `str_cli` has returned. -/
  | returned
  /-- Left through `err_sys` or `err_quit`. -/
  | exited
  deriving DecidableEq, Repr

/-- The client, and what the kernel has for its socket. -/
structure Sys where
  pc : Pc
  stdineof : Bool
  /-- The bit of `fileno(fp)` in `rset`. -/
  rstdin : Bool
  recvline : List UInt8
  sendline : List UInt8
  /-- The static variables of `readline`. -/
  rl : Rline
  /-- Bytes that have arrived and have not been read. -/
  rcvq : List UInt8
  /-- The server has closed its side, or an error is pending. -/
  ended : Bool
  /-- What has been written to standard output. -/
  stdout : List UInt8
  /-- What has been written to the socket. -/
  sent : List UInt8

inductive Act where
  /-- A segment arrives. -/
  | arrive (bs : List UInt8)
  /-- The server closes its side, or the connection breaks. -/
  | finish
  /-- `select` returns, with the socket and the input readable or not. -/
  | select (sock stdin : Bool)
  /-- `select` fails. -/
  | selectFail
  /-- `read` returns this many bytes, or fails. -/
  | read (res : Except Errno ℕ)
  /-- `fputs` succeeds or fails. -/
  | fputs (ok : Bool)
  /-- `fgets` returns a line. -/
  | fgets (line : List UInt8)
  /-- `fgets` finds the end of file; `shutdown` succeeds or fails. -/
  | fgetsEof (ok : Bool)
  /-- `fgets` fails. -/
  | fgetsFail
  /-- `writen` succeeds or fails. -/
  | writen (ok : Bool)
  /-- The client goes on without a system call. -/
  | tick

/-- A string in a buffer: what is in front of the terminating zero. -/
def str (buf : List UInt8) : List UInt8 := buf.takeWhile (· ≠ 0)

namespace Sys

/-- The socket is readable: there are bytes for it, or the end of file, or an error. -/
def Readable (s : Sys) : Prop := s.rcvq ≠ [] ∨ s.ended = true

instance (s : Sys) : Decidable s.Readable := inferInstanceAs (Decidable (_ ∨ _))

/-- `err_sys` and `err_quit`. -/
def exit (s : Sys) : Sys := { s with pc := .exited }

/-- What `read` may return: any positive number of queued bytes up to `len`, or `0` at the
end of file. -/
def readOk (s : Sys) (len k : ℕ) : Bool :=
  if k = 0 then s.rcvq.isEmpty && s.ended else decide (k ≤ len ∧ k ≤ s.rcvq.length)

/-- `str_cli` once `readline` has returned. -/
def returned (s : Sys) (r : Ret) : Sys :=
  let s := { s with recvline := r.line }
  if r.rv < 0 then s.exit
  else if r.rv = 0 then
    if s.stdineof then { s with pc := .returned } else s.exit
  else { s with pc := .fputs }

/-- The rest of a round of the loop of `readline`, once `my_read` has returned. -/
def got (s : Sys) (n ptr : ℕ) (rc : Rc) : Sys :=
  match body eofCount n ptr s.recvline rc with
  | .inl r => s.returned r
  | .inr line =>
    if n + 1 < maxLine then { s with recvline := line, pc := .reading (n + 1) (ptr + 1) }
    else s.returned ⟨n + 1, ptr + 1, line.set (ptr + 1) 0⟩

/-- The `read` of `my_read`, called when its buffer is empty. -/
def read (s : Sys) (res : Except Errno ℕ) : Option Sys :=
  match s.pc with
  | .reading n ptr =>
    if 0 < s.rl.cnt then none
    else
      match res with
      | .error .eintr => some { s with rl := (s.rl.fill (.error .eintr)).2 }
      | .error e => some ({ s with rl := (s.rl.fill (.error e)).2 }.got n ptr .error)
      | .ok k =>
        if s.readOk maxLine k then
          let filled := s.rl.fill (.ok (s.rcvq.take k))
          some ({ s with rcvq := s.rcvq.drop k, rl := filled.2 }.got n ptr filled.1)
        else none
  | _ => none

/-- The steps without a system call. -/
def tick (s : Sys) : Option Sys :=
  match s.pc with
  | .reading n ptr =>
    -- `my_read` finds a byte in its buffer
    if h : 0 < s.rl.cnt then
      some ({ s with rl := (s.rl.next h).2 }.got n ptr (s.rl.next h).1)
    else none
  | .stdin => some { s with pc := if s.rstdin then .fgets else .select }
  | _ => none

end Sys

/-- The transition function.  The bit of the input in `rset` is set before each call of
`Select` while `stdineof` is `0`, and stays as it is later. -/
def step (s : Sys) : Act → Option Sys
  | .arrive bs => if s.ended then none else some { s with rcvq := s.rcvq ++ bs }
  | .finish => some { s with ended := true }
  | .select sock stdin =>
    if s.pc = .select ∧ (sock ∨ stdin) ∧ (sock → s.Readable) ∧
        (stdin → s.stdineof = false ∨ s.rstdin) then
      some { s with rstdin := stdin, pc := if sock then .reading 1 0 else .stdin }
    else none
  | .selectFail => if s.pc = .select then some s.exit else none
  | .read res => s.read res
  | .fputs ok =>
    if s.pc = .fputs then
      if ok then some { s with stdout := s.stdout ++ str s.recvline, pc := .stdin } else some s.exit
    else none
  | .fgets line =>
    if s.pc = .fgets ∧ line ≠ [] ∧ line.length < maxLine then
      some { s with sendline := line ++ 0 :: s.sendline.drop (line.length + 1), pc := .writen }
    else none
  | .fgetsEof ok =>
    if s.pc = .fgets then
      if ok then some { s with stdineof := true, rstdin := false, pc := .select }
      else some { s with stdineof := true }.exit
    else none
  | .fgetsFail => if s.pc = .fgets then some s.exit else none
  | .writen ok =>
    if s.pc = .writen then
      if ok then some { s with sent := s.sent ++ str s.sendline, pc := .select } else some s.exit
    else none
  | .tick => s.tick

/-- The client as it enters its loop.  The contents of the two buffers are whatever the
stack held. -/
def init (recvline sendline : List UInt8) : Sys where
  pc := .select
  stdineof := false
  rstdin := false
  recvline := recvline
  sendline := sendline
  rl := Rline.init
  rcvq := []
  ended := false
  stdout := []
  sent := []

/-- The client is about to wait in `Select`, the kernel has nothing for the socket, and a
complete line is in the buffer of `readline`. -/
def Sys.Stranded (s : Sys) : Prop := s.pc = .select ∧ ¬ s.Readable ∧ newline ∈ s.rl.unread

instance (s : Sys) : Decidable s.Stranded := inferInstanceAs (Decidable (_ ∧ _ ∧ _))

/-- What is left of some bytes when a call of `readline` with the loop counter `n` has
taken from them what it needs. -/
def leftover (n : ℕ) (bs : List UInt8) : List UInt8 :=
  bs.drop (cut isNewline (maxLine - n) bs).1.length

/-- A `read` after which the socket is not readable any more does not bring a newline
beyond what the current call of `readline` takes. -/
def OneLine (s : Sys) : Act → Prop
  | .read (.ok k) =>
    match s.pc with
    | .reading n _ =>
      ¬ { s with rcvq := s.rcvq.drop k }.Readable → newline ∉ leftover n (s.rcvq.take k)
    | _ => True
  | _ => True

instance OneLine.decidable (s : Sys) : (a : Act) → Decidable (OneLine s a)
  | .read (.ok k) =>
    match h : s.pc with
    | .reading n ptr =>
      decidable_of_iff (¬ { s with rcvq := s.rcvq.drop k }.Readable →
        newline ∉ leftover n (s.rcvq.take k)) (by rw [OneLine, h])
    | .select | .fputs | .stdin | .fgets | .writen | .returned | .exited =>
      isTrue (by rw [OneLine, h]; trivial)
  | .read (.error _) => isTrue trivial
  | .arrive _ | .finish | .select _ _ | .selectFail | .fputs _ | .fgets _ | .fgetsEof _
  | .fgetsFail | .writen _ | .tick => isTrue trivial

/-! ### The bytes left in the buffer -/

theorem leftover_cons_newline {n : ℕ} (hn : n < maxLine) {c : UInt8} (hc : isNewline c = true)
    (t : List UInt8) : leftover n (c :: t) = t := by
  obtain ⟨k, hk⟩ : ∃ k, maxLine - n = k + 1 := ⟨maxLine - n - 1, by omega⟩
  rw [leftover, hk, cut_succ_cons, if_pos hc]
  rfl

/-- The last byte there is room for. -/
theorem leftover_cons_full {n : ℕ} (hn : n + 1 = maxLine) (c : UInt8) (t : List UInt8) :
    leftover n (c :: t) = t := by
  have hk : maxLine - n = 0 + 1 := by omega
  rw [leftover, hk, cut_succ_cons, cut_zero]
  split <;> rfl

/-- One byte is not more than `readline` takes. -/
theorem leftover_singleton {n : ℕ} (hn : n < maxLine) (c : UInt8) : leftover n [c] = [] := by
  obtain ⟨k, hk⟩ : ∃ k, maxLine - n = k + 1 := ⟨maxLine - n - 1, by omega⟩
  rw [leftover, hk, cut_succ_cons]
  split <;> simp

theorem leftover_cons {n : ℕ} (hn : n + 1 < maxLine) {c : UInt8} (hc : isNewline c = false)
    (t : List UInt8) : leftover n (c :: t) = leftover (n + 1) t := by
  have hk : maxLine - n = (maxLine - (n + 1)) + 1 := by omega
  rw [leftover, hk, cut_succ_cons, if_neg (by rw [hc]; exact Bool.false_ne_true), leftover]
  rfl

theorem mem_of_mem_leftover {n : ℕ} {bs : List UInt8} {c : UInt8} (h : c ∈ leftover n bs) :
    c ∈ bs := List.mem_of_mem_drop h

/-- The client is not in `readline`. -/
def Pc.idle : Pc → Bool
  | .reading _ _ => false
  | _ => true

/-- The bytes that are left in the buffer when the current call of `readline`, if there is
one, has returned. -/
def Sys.ahead (s : Sys) : List UInt8 :=
  match s.pc with
  | .reading n _ => leftover n s.rl.unread
  | _ => s.rl.unread

theorem mem_of_mem_ahead {s : Sys} {c : UInt8} (h : c ∈ s.ahead) : c ∈ s.rl.unread := by
  unfold Sys.ahead at h
  split at h
  · exact mem_of_mem_leftover h
  · exact h

/-- A complete line stays in the buffer only while the socket is readable. -/
structure Kept (s : Sys) : Prop where
  limit : ∀ n ptr, s.pc = .reading n ptr → 1 ≤ n ∧ n < maxLine
  kept : newline ∈ s.ahead → s.Readable

section Steps

variable {s s' : Sys} {n ptr : ℕ}

theorem ahead_of_idle (hpc : s.pc.idle = true) : s.ahead = s.rl.unread := by
  unfold Sys.ahead
  split
  · next n ptr hp =>
    rw [hp] at hpc
    cases hpc
  · rfl

theorem kept_of_idle (hpc : s.pc.idle = true) (h : newline ∈ s.rl.unread → s.Readable) :
    Kept s := by
  refine ⟨fun n ptr hp => ?_, fun hm => h ?_⟩
  · rw [hp] at hpc
    cases hpc
  · rw [ahead_of_idle hpc] at hm
    exact hm

/-- A step outside `readline` that leaves the socket and the buffer alone. -/
theorem Kept.idle (h : Kept s) (hpc : s.pc.idle = true) (hpc' : s'.pc.idle = true)
    (hrl : s'.rl = s.rl) (hread : s'.Readable ↔ s.Readable) : Kept s' := by
  refine kept_of_idle hpc' fun hm => hread.mpr (h.kept ?_)
  rw [hrl] at hm
  rw [ahead_of_idle hpc]
  exact hm

/-- What `str_cli` does once `readline` has returned changes where it is and what is in
`recvline` only. -/
theorem returned_eq (s : Sys) (r : Ret) :
    ∃ pc : Pc, pc.idle = true ∧ s.returned r = { s with recvline := r.line, pc } := by
  unfold Sys.returned
  dsimp only
  split
  · exact ⟨.exited, rfl, rfl⟩
  · split
    · split
      · exact ⟨.returned, rfl, rfl⟩
      · exact ⟨.exited, rfl, rfl⟩
    · exact ⟨.fputs, rfl, rfl⟩

/-- `readline` has returned. -/
theorem kept_returned {r : Ret} (h : newline ∈ s.rl.unread → s.Readable) :
    Kept (s.returned r) := by
  obtain ⟨pc, hpc, heq⟩ := returned_eq s r
  rw [heq]
  exact kept_of_idle hpc h

theorem got_newline {c : UInt8} (hc : isNewline c = true) :
    s.got n ptr (.byte c)
      = s.returned ⟨n, ptr + 1, (s.recvline.set ptr c).set (ptr + 1) 0⟩ := by
  simp [Sys.got, body, hc]

theorem got_more {c : UInt8} (hc : isNewline c = false) (hn : n + 1 < maxLine) :
    s.got n ptr (.byte c)
      = { s with recvline := s.recvline.set ptr c, pc := .reading (n + 1) (ptr + 1) } := by
  simp [Sys.got, body, hc, hn]

theorem got_full {c : UInt8} (hc : isNewline c = false) (hn : n + 1 = maxLine) :
    s.got n ptr (.byte c)
      = s.returned ⟨n + 1, ptr + 1, (s.recvline.set ptr c).set (ptr + 1) 0⟩ := by
  have hge : ¬ n + 1 < maxLine := by omega
  simp [Sys.got, body, hc, hge]

/-- `readline` has got a byte. -/
theorem kept_got_byte {c : UInt8} (hn : n < maxLine)
    (h : newline ∈ leftover n (c :: s.rl.unread) → s.Readable) :
    Kept (s.got n ptr (.byte c)) := by
  cases hc : isNewline c with
  | true =>
    rw [leftover_cons_newline hn hc] at h
    rw [got_newline hc]
    exact kept_returned h
  | false =>
    rcases Nat.lt_or_ge (n + 1) maxLine with hlt | hge
    · rw [leftover_cons hlt hc] at h
      rw [got_more hc hlt]
      refine ⟨fun m _ hp => ?_, h⟩
      cases hp
      exact ⟨Nat.le_add_left 1 n, hlt⟩
    · have hfull : n + 1 = maxLine := by omega
      rw [leftover_cons_full hfull] at h
      rw [got_full hc hfull]
      exact kept_returned h

/-- `readline` has found the end of file or an error; its buffer is empty. -/
theorem kept_got_none {rc : Rc} (hrc : rc = .eof ∨ rc = .error) (h : s.rl.unread = []) :
    Kept (s.got n ptr rc) := by
  have hret : ∃ r, s.got n ptr rc = s.returned r := by
    rcases hrc with rfl | rfl
    · exact ⟨eofCount n ptr s.recvline, rfl⟩
    · exact ⟨⟨-1, ptr, s.recvline⟩, rfl⟩
  obtain ⟨r, hr⟩ := hret
  rw [hr]
  exact kept_returned fun hm => by rw [h] at hm; cases hm

theorem kept_read {res : Except Errno ℕ} (h : Kept s) (hone : OneLine s (.read res))
    (hs : s.read res = some s') : Kept s' := by
  unfold Sys.read at hs
  split at hs
  · next n ptr hpc =>
    have hn := h.limit n ptr hpc
    split at hs
    · cases hs
    · split at hs
      · cases hs
        exact ⟨h.limit, fun hm => absurd (mem_of_mem_ahead hm) (by simp)⟩
      · cases hs
        exact kept_got_none (.inr rfl) rfl
      · next k =>
        split at hs
        · cases hs
          simp only [OneLine, hpc] at hone
          cases hbs : s.rcvq.take k with
          | nil =>
            obtain ⟨r', hfill, hunread⟩ := s.rl.fill_nil
            rw [hfill]
            exact kept_got_none (.inl rfl) hunread
          | cons b bs =>
            obtain ⟨r', hfill, hunread⟩ := s.rl.fill_cons b bs
            rw [hbs] at hone
            rw [hfill]
            refine kept_got_byte hn.2 fun hm => ?_
            simp only [hunread] at hm
            exact Decidable.by_contra fun hnot => hone hnot hm
        · cases hs
  · cases hs

theorem kept_tick (h : Kept s) (hs : s.tick = some s') : Kept s' := by
  unfold Sys.tick at hs
  split at hs
  · next n ptr hpc =>
    split at hs
    · next hcnt =>
      obtain ⟨c, r', hnext, hunread⟩ := s.rl.next_unread hcnt
      cases hs
      rw [hnext]
      refine kept_got_byte (h.limit n ptr hpc).2 fun hm => h.kept ?_
      rw [Sys.ahead, hpc, hunread]
      exact hm
    · cases hs
  · next hpc =>
    cases hs
    refine h.idle (by rw [hpc]; rfl) ?_ rfl Iff.rfl
    dsimp only
    split <;> rfl
  · cases hs

/-- A call that is made outside `readline`, at one place. -/
theorem Kept.call {p : Pc} {t : Sys} (h : Kept s) (hp : p.idle = true)
    (hs : (if s.pc = p then some t else none) = some s') (ht : t.pc.idle = true)
    (hrl : t.rl = s.rl) (hread : t.Readable ↔ s.Readable) : Kept s' := by
  obtain ⟨hpc, heq⟩ := Option.ite_none_right_eq_some.mp hs
  rw [Option.some.injEq] at heq
  subst heq
  exact h.idle (hpc ▸ hp) ht hrl hread

theorem kept_step {a : Act} (h : Kept s) (hone : OneLine s a) (hs : step s a = some s') :
    Kept s' := by
  cases a with
  | read res => exact kept_read h hone hs
  | tick => exact kept_tick h hs
  | arrive bs =>
    simp only [step] at hs
    split at hs
    · cases hs
    · cases hs
      refine ⟨h.limit, fun hm => (h.kept hm).imp_left fun hne hnil => ?_⟩
      exact hne (List.append_eq_nil_iff.mp hnil).1
  | finish =>
    cases hs
    exact ⟨h.limit, fun _ => .inr rfl⟩
  | select sock stdin =>
    simp only [step] at hs
    split at hs
    · next hc =>
      cases hs
      have hahead := ahead_of_idle (s := s) (by rw [hc.1]; rfl)
      cases sock with
      | true =>
        refine ⟨fun n ptr hp => ?_, fun hm => h.kept ?_⟩
        · cases hp
          decide
        · rw [hahead]
          exact mem_of_mem_leftover hm
      | false => exact h.idle (by rw [hc.1]; rfl) rfl rfl Iff.rfl
    · cases hs
  | selectFail => exact h.call (p := .select) rfl hs rfl rfl Iff.rfl
  | fputs ok =>
    cases ok with
    | true => exact h.call (p := .fputs) rfl hs rfl rfl Iff.rfl
    | false => exact h.call (p := .fputs) rfl hs rfl rfl Iff.rfl
  | fgets line =>
    simp only [step] at hs
    split at hs
    · next hc =>
      cases hs
      exact h.idle (by rw [hc.1]; rfl) rfl rfl Iff.rfl
    · cases hs
  | fgetsEof ok =>
    cases ok with
    | true => exact h.call (p := .fgets) rfl hs rfl rfl Iff.rfl
    | false => exact h.call (p := .fgets) rfl hs rfl rfl Iff.rfl
  | fgetsFail => exact h.call (p := .fgets) rfl hs rfl rfl Iff.rfl
  | writen ok =>
    cases ok with
    | true => exact h.call (p := .writen) rfl hs rfl rfl Iff.rfl
    | false => exact h.call (p := .writen) rfl hs rfl rfl Iff.rfl

end Steps

theorem kept_init (recvline sendline : List UInt8) : Kept (init recvline sendline) :=
  kept_of_idle rfl fun hm => by cases hm

/-- **No line is stranded** in a run in which no `read` that empties the socket brings a
newline beyond the line that is being read. -/
theorem not_stranded_of_oneLine (recvline sendline : List UInt8) (as : List Act) (s : Sys)
    (hone : Along step OneLine (init recvline sendline) as)
    (hrun : exec step (init recvline sendline) as = some s) : ¬ s.Stranded := by
  rintro ⟨hpc, hnot, hm⟩
  have hkept := exec_invariant_along (fun _ _ _ h hP hs => kept_step h hP hs) as _ s
    (kept_init recvline sendline) hone hrun
  refine hnot (hkept.kept ?_)
  rw [ahead_of_idle (by rw [hpc]; rfl)]
  exact hm

/-- Two segments of one line each. -/
def oneLineEachRun : List Act :=
  [.arrive [97, 10], .select true false, .read (.ok 2), .tick, .fputs true, .tick,
    .arrive [98, 10], .select true false, .read (.ok 2), .tick, .fputs true, .tick]

theorem not_stranded_of_oneLine_run : ∃ s,
    exec step (init (List.replicate maxLine 0) (List.replicate maxLine 0)) oneLineEachRun = some s ∧
      s.pc = .select ∧ s.rcvq = [] ∧ s.stdout = [97, 10, 98, 10] ∧ ¬ s.Stranded := by
  obtain ⟨s, hs, hfacts⟩ := Option.map_eq_some_iff.mp
    (show (exec step (init (List.replicate maxLine 0) (List.replicate maxLine 0))
        oneLineEachRun).map (fun s => (s.pc, s.rcvq, s.stdout))
      = some (.select, [], [97, 10, 98, 10]) by decide)
  simp only [Prod.mk.injEq] at hfacts
  exact ⟨s, hs, hfacts.1, hfacts.2.1, hfacts.2.2,
    not_stranded_of_oneLine _ _ oneLineEachRun s (by decide) hs⟩

/-! ### The condition is needed -/

section Needed

variable {s : Sys} {n ptr : ℕ}

/-- From `Fputs` back to `Select`. -/
theorem stranded_of_fputs (hpc : s.pc = .fputs) (hnot : ¬ s.Readable)
    (hm : newline ∈ s.rl.unread) : ∃ as t, exec step s as = some t ∧ t.Stranded := by
  cases hin : s.rstdin with
  | false =>
    refine ⟨[.fputs true, .tick], { s with stdout := s.stdout ++ str s.recvline, pc := .select },
      ?_, rfl, hnot, hm⟩
    simp [exec, step, Sys.tick, hpc, hin]
  | true =>
    -- the input is readable as well: a line is sent
    refine ⟨[.fputs true, .tick, .fgets [newline], .writen true],
      { s with
        stdout := s.stdout ++ str s.recvline
        sendline := newline :: 0 :: s.sendline.drop 2
        sent := s.sent ++ str (newline :: 0 :: s.sendline.drop 2)
        pc := .select }, ?_, rfl, hnot, hm⟩
    simp [exec, step, Sys.tick, hpc, hin, maxLine]

/-- `readline` has returned a line. -/
theorem stranded_of_returned {r : Ret} (hrv : 0 < r.rv) (hnot : ¬ s.Readable)
    (hm : newline ∈ s.rl.unread) : ∃ as t, exec step (s.returned r) as = some t ∧ t.Stranded := by
  have hneg : ¬ r.rv < 0 := by omega
  have hzero : ¬ r.rv = 0 := by omega
  have heq : s.returned r = { s with recvline := r.line, pc := .fputs } := by
    simp [Sys.returned, hneg, hzero]
  rw [heq]
  exact stranded_of_fputs rfl hnot hm

/-- The rest of a call of `readline` that leaves a newline in the buffer. -/
theorem stranded_of_got : ∀ (bs : List UInt8) (s : Sys) (n ptr : ℕ) (c : UInt8), 1 ≤ n →
    n < maxLine → s.rl.unread = bs → ¬ s.Readable → newline ∈ leftover n (c :: bs) →
    ∃ as t, exec step (s.got n ptr (.byte c)) as = some t ∧ t.Stranded := by
  intro bs
  induction bs with
  | nil =>
    intro s n ptr c _ hn _ _ hm
    rw [leftover_singleton hn] at hm
    cases hm
  | cons b bs ih =>
    intro s n ptr c hpos hn hbs hnot hm
    cases hc : isNewline c with
    | true =>
      rw [leftover_cons_newline hn hc, ← hbs] at hm
      rw [got_newline hc]
      exact stranded_of_returned (by simp only; omega) hnot hm
    | false =>
      rcases Nat.lt_or_ge (n + 1) maxLine with hlt | hge
      · rw [leftover_cons hlt hc] at hm
        rw [got_more hc hlt]
        have hcnt : 0 < s.rl.cnt := by
          by_contra hle
          rw [Rline.unread_of_cnt_nonpos (by omega)] at hbs
          cases hbs
        obtain ⟨c', r', hnext, hunread⟩ := s.rl.next_unread hcnt
        rw [hbs, List.cons.injEq] at hunread
        obtain ⟨rfl, htail⟩ := hunread
        obtain ⟨as, t, hrun, ht⟩ := ih
          { s with recvline := s.recvline.set ptr c, pc := .reading (n + 1) (ptr + 1), rl := r' }
          (n + 1) (ptr + 1) b (Nat.le_add_left 1 n) hlt htail.symm hnot hm
        refine ⟨.tick :: as, t, ?_, ht⟩
        have htick :
            step { s with recvline := s.recvline.set ptr c, pc := .reading (n + 1) (ptr + 1) } .tick
              = some (Sys.got { s with
                  recvline := s.recvline.set ptr c
                  pc := .reading (n + 1) (ptr + 1)
                  rl := r' } (n + 1) (ptr + 1) (.byte b)) := by
          simp [step, Sys.tick, hcnt, hnext]
        rw [exec, htick]
        exact hrun
      · have hfull : n + 1 = maxLine := by omega
        rw [leftover_cons_full hfull, ← hbs] at hm
        rw [got_full hc hfull]
        exact stranded_of_returned (by simp only; omega) hnot hm

/-- **Every other `read` may strand a line**: if the first `read` that is not as `OneLine`
says has been made, the client gets into `Select` with a complete line in the buffer,
unless the server goes on sending. -/
theorem stranded_of_read (recvline sendline : List UInt8) (as : List Act) (s s' : Sys) (k : ℕ)
    (hone : Along step OneLine (init recvline sendline) as)
    (hrun : exec step (init recvline sendline) as = some s)
    (hread : step s (.read (.ok k)) = some s') (hbad : ¬ OneLine s (.read (.ok k))) :
    ∃ bs t, exec step s' bs = some t ∧ t.Stranded := by
  have hkept := exec_invariant_along (fun _ _ _ h hP hs => kept_step h hP hs) as _ s
    (kept_init recvline sendline) hone hrun
  simp only [step, Sys.read] at hread
  split at hread
  · next n ptr hpc =>
    obtain ⟨hpos, hn⟩ := hkept.limit n ptr hpc
    split at hread
    · cases hread
    · split at hread
      · cases hread
        simp only [OneLine, hpc, not_forall, not_not] at hbad
        obtain ⟨hnot, hm⟩ := hbad
        cases hbs : s.rcvq.take k with
        | nil =>
          rw [hbs] at hm
          exact absurd (mem_of_mem_leftover hm) List.not_mem_nil
        | cons b bs =>
          obtain ⟨r', hfill, hunread⟩ := s.rl.fill_cons b bs
          rw [hbs] at hm
          rw [hfill]
          exact stranded_of_got bs _ n ptr b hpos hn hunread hnot hm
      · cases hread
  · cases hread

end Needed

/-- Two lines in one segment. -/
def twoLinesRun : List Act :=
  [.arrive [97, 10, 98, 10], .select true false, .read (.ok 4), .tick, .fputs true, .tick]

/-- **A line is stranded**: the server has sent `"a\nb\n"` in one segment.  The client has
written the first line and is about to wait in `Select`; the kernel has nothing for the
socket, and the second line is in the buffer of `readline`. -/
theorem second_line_stranded : ∃ s,
    exec step (init (List.replicate maxLine 0) (List.replicate maxLine 0)) twoLinesRun = some s ∧
      s.pc = .select ∧ s.rcvq = [] ∧ s.ended = false ∧ s.stdout = [97, 10] ∧
      s.rl.unread = [98, 10] := by
  obtain ⟨s, hs, hfacts⟩ := Option.map_eq_some_iff.mp
    (show (exec step (init (List.replicate maxLine 0) (List.replicate maxLine 0)) twoLinesRun).map
        (fun s => (s.pc, s.rcvq, s.ended, s.stdout, s.rl.unread))
      = some (.select, [], false, [97, 10], [98, 10]) by decide)
  simp only [Prod.mk.injEq] at hfacts
  exact ⟨s, hs, hfacts⟩

end TcpIp.Select.Client
