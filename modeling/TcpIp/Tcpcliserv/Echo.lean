import TcpIp.Lib.Bounded
import TcpIp.Tcpcliserv.Lockstep

/-!
# The echo client and the echo server

`str_cli` of `lib/str_cli.c` sends a line, waits for the line that comes back and writes it to
standard output; `str_echo` of `lib/str_echo.c` sends back whatever it reads.  The two run against
each other over a connection.  Either of them may read or write less than it asks for, be
interrupted, or fail and exit, at any point.

The client's `Readline` keeps the static buffer of the library.  Between the two there are two
queues, of the bytes that one side has written and the other has not read.

## Main definitions

* `Sys`, `Act`, `step`, `init` — the two processes and the connection.
* `Sys.abs` — the system without the buffers.

## Main results

* `simulates` — a step is one of the system without the buffers.
* `output_isPrefix` — **what the client shows is a first part of what it was given**, whatever
  fails.
* `echo_stops` — **when nothing fails, all lines come back if they are complete**, and if one is
  not the two sides wait for each other.
-/

namespace TcpIp.Echo

open Readline Cut Run
open Bytes (cstring)

/-! ### The processes -/

/-- Where the client is. -/
inductive CliPc where
  | fgets
  /-- In `Writen`, with the bytes that have not been written. -/
  | writen (left : List UInt8)
  /-- In the loop of `readline`, about to get a byte. -/
  | reading (n ptr : ℕ)
  | fputs
  /-- `str_cli` has returned, and the client has called `exit`. -/
  | returned
  /-- Left through `err_sys` or `err_quit`. -/
  | exited
  deriving DecidableEq, Repr

/-- Where the server is. -/
inductive SrvPc where
  | read
  /-- In `Writen`, with the bytes that have not been written. -/
  | writen (left : List UInt8)
  /-- `str_echo` has returned, and the child has called `exit`. -/
  | returned
  | exited
  deriving DecidableEq, Repr

/-- The two processes and the connection between them. -/
structure Sys where
  cli : CliPc
  /-- What is left of standard input. -/
  input : List UInt8
  recvline : List UInt8
  /-- The static variables of `readline`. -/
  rl : Rline
  /-- What has been written to standard output. -/
  output : List UInt8
  srv : SrvPc
  /-- Written by the client and not read by the server. -/
  up : List UInt8
  /-- Written by the server and not read by the client. -/
  down : List UInt8

inductive Act where
  /-- `Fgets` succeeds or fails. -/
  | fgets (ok : Bool)
  /-- `write` of the client. -/
  | write (res : Except Errno ℕ)
  /-- `read` of the client, which `my_read` calls when its buffer is empty. -/
  | read (res : Except Errno ℕ)
  /-- `my_read` finds a byte in its buffer. -/
  | take
  | fputs (ok : Bool)
  | srvRead (res : Except Errno ℕ)
  | srvWrite (res : Except Errno ℕ)
  deriving Repr

/-- The client's side is closed. -/
def CliPc.gone : CliPc → Bool
  | .returned | .exited => true
  | _ => false

/-- The server's side is closed. -/
def SrvPc.gone : SrvPc → Bool
  | .returned | .exited => true
  | _ => false

/-- What `read` may return: any positive number of queued bytes up to `len`, or `0` at the end of
file. -/
def readOk (queue : List UInt8) (ended : Bool) (len k : ℕ) : Bool :=
  if k = 0 then queue.isEmpty && ended else decide (k ≤ len ∧ k ≤ queue.length)

/-- `Writen` has bytes left to write, or returns to the loop. -/
def cliWriting (left : List UInt8) : CliPc := if left = [] then .reading 1 0 else .writen left

def srvWriting (left : List UInt8) : SrvPc := if left = [] then .read else .writen left

namespace Sys

/-- `str_cli` once `Readline` has returned. -/
def returned (s : Sys) (r : Ret) : Sys :=
  if r.rv ≤ 0 then { s with recvline := r.line, cli := .exited }
  else { s with recvline := r.line, cli := .fputs }

/-- The rest of a round of the loop of `readline`, once `my_read` has returned. -/
def got (s : Sys) (n ptr : ℕ) (rc : Rc) : Sys :=
  match body eofCount n ptr s.recvline rc with
  | .inl r => s.returned r
  | .inr line =>
    if n + 1 < maxLine then { s with recvline := line, cli := .reading (n + 1) (ptr + 1) }
    else s.returned ⟨n + 1, ptr + 1, line.set (ptr + 1) 0⟩

/-- The `read` of `my_read`. -/
def read (s : Sys) (n ptr : ℕ) : Except Errno ℕ → Option Sys
  | .error e =>
    let s := { s with rl := (s.rl.fill (.error e)).2 }
    if e = .eintr then some s else some (s.got n ptr .error)
  | .ok k =>
    if readOk s.down s.srv.gone maxLine k then
      let filled := s.rl.fill (.ok (s.down.take k))
      some ({ s with down := s.down.drop k, rl := filled.2 }.got n ptr filled.1)
    else none

/-- A step of the client. -/
def client (s : Sys) : Act → Option Sys
  | .fgets ok =>
    if s.cli = .fgets then
      if ok = false then some { s with cli := .exited }
      else if line s.input = [] then some { s with cli := .returned }
      else some { s with
        input := s.input.drop (line s.input).length, cli := cliWriting (sendline s.input) }
    else none
  | .write res =>
    match s.cli, res with
    | .writen _, .error e => if e = .eintr then some s else some { s with cli := .exited }
    | .writen left, .ok k =>
      if 0 < k ∧ k ≤ left.length then
        some { s with up := s.up ++ left.take k, cli := cliWriting (left.drop k) }
      else none
    | _, _ => none
  | .read res =>
    match s.cli with
    | .reading n ptr => if 0 < s.rl.cnt then none else s.read n ptr res
    | _ => none
  | .take =>
    match s.cli with
    | .reading n ptr =>
      if h : 0 < s.rl.cnt then some ({ s with rl := (s.rl.next h).2 }.got n ptr (s.rl.next h).1)
      else none
    | _ => none
  | .fputs ok =>
    if s.cli = .fputs then
      if ok then some { s with output := s.output ++ cstring s.recvline 0, cli := .fgets }
      else some { s with cli := .exited }
    else none
  | _ => none

/-- A step of the server. -/
def server (s : Sys) : Act → Option Sys
  | .srvRead res =>
    if s.srv = .read then
      match res with
      | .error e => if e = .eintr then some s else some { s with srv := .exited }
      | .ok k =>
        if readOk s.up s.cli.gone maxLine k then
          if k = 0 then some { s with srv := .returned }
          else some { s with up := s.up.drop k, srv := .writen (s.up.take k) }
        else none
    else none
  | .srvWrite res =>
    match s.srv, res with
    | .writen _, .error e => if e = .eintr then some s else some { s with srv := .exited }
    | .writen left, .ok k =>
      if 0 < k ∧ k ≤ left.length then
        some { s with down := s.down ++ left.take k, srv := srvWriting (left.drop k) }
      else none
    | _, _ => none
  | _ => none

end Sys

/-- A step of one of the two. -/
def step (s : Sys) : Act → Option Sys
  | .srvRead res => s.server (.srvRead res)
  | .srvWrite res => s.server (.srvWrite res)
  | a => s.client a

/-- The processes as they enter their loops.  What is in `recvline` is whatever the stack held. -/
def init (input : List UInt8) (recvline : Vector UInt8 maxLine) : Sys where
  cli := .fgets
  input := input
  recvline := recvline.toList
  rl := Rline.init
  output := []
  srv := .read
  up := []
  down := []

/-! ### Without the buffers -/

/-- What the client is doing. -/
def Sys.phase (s : Sys) : Phase :=
  match s.cli with
  | .fgets => .idle
  | .writen left => .send left
  | .reading _ ptr => .recv (s.recvline.take ptr)
  | .fputs => .shows (cstring s.recvline 0)
  | .returned => .done
  | .exited => .dead

def SrvPc.serve : SrvPc → Serve
  | .read => .read
  | .writen left => .writen left
  | .returned => .done
  | .exited => .dead

/-- The system without the buffers. -/
def Sys.abs (s : Sys) : State where
  phase := s.phase
  input := s.input
  output := s.output
  back := s.rl.unread ++ s.down
  srv := s.srv.serve
  up := s.up

/-- The counters of `readline`. -/
structure Valid (s : Sys) : Prop where
  length_eq : s.recvline.length = maxLine
  reading : ∀ n ptr, s.cli = .reading n ptr → n = ptr + 1 ∧ n < maxLine

/-- What an action is. -/
inductive Kind where
  | works
  | interrupted
  | fails
  deriving DecidableEq

def kindOf : Except Errno ℕ → Kind
  | .ok _ => .works
  | .error e => if e = .eintr then .interrupted else .fails

def Act.kind : Act → Kind
  | .fgets ok | .fputs ok => if ok then .works else .fails
  | .write res | .read res | .srvRead res | .srvWrite res => kindOf res
  | .take => .works

section Buffer

variable {buf : List UInt8} {ptr : ℕ} {c : UInt8}

theorem take_succ_set (h : ptr < buf.length) :
    (buf.set ptr c).take (ptr + 1) = buf.take ptr ++ [c] := by
  have hlen : (buf.take ptr).length = ptr := by
    rw [List.length_take]
    omega
  rw [List.set_eq_take_cons_drop c h, List.take_append, hlen, List.take_of_length_le (by omega),
    Nat.add_sub_cancel_left]
  rfl

/-- A zero is stored behind some bytes. -/
theorem cstring_set (h : ptr < buf.length) (hzero : 0 ∉ buf.take ptr) :
    cstring (buf.set ptr 0) 0 = buf.take ptr := by
  have hdrop : (buf.set ptr 0).drop 0 = buf.take ptr ++ 0 :: buf.drop (ptr + 1) := by
    rw [List.drop_zero, List.set_eq_take_cons_drop 0 h]
  exact Bytes.cstring_eq_of_notMem hdrop hzero

end Buffer

section Got

variable {s : Sys} {n ptr : ℕ} {c : UInt8}

/-- Another byte of the line. -/
theorem got_byte (hlen : s.recvline.length = maxLine) (hn : n = ptr + 1) (hlt : n < maxLine)
    (hzero : 0 ∉ s.recvline.take ptr ++ [c]) :
    Valid (s.got n ptr (.byte c)) ∧ (s.got n ptr (.byte c)).abs =
      { s.abs with phase := receiving (s.recvline.take ptr ++ [c]) } := by
  have htake : (s.recvline.set ptr c).take (ptr + 1) = s.recvline.take ptr ++ [c] :=
    take_succ_set (by omega)
  have hstr : cstring ((s.recvline.set ptr c).set (ptr + 1) 0) 0 = s.recvline.take ptr ++ [c] := by
    rw [← htake]
    exact cstring_set (by rw [List.length_set]; omega) (by rw [htake]; exact hzero)
  have hlast : (s.recvline.take ptr ++ [c]).getLast? = some c := by simp
  have hlen' : (s.recvline.take ptr ++ [c]).length = ptr + 1 := by simp; omega
  rw [Sys.got, body]
  by_cases hc : isNewline c = true
  · have hcomplete : Complete (s.recvline.take ptr ++ [c]) := by
      left
      rw [hlast, eq_of_beq hc]
    have hpos : ¬(n : ℤ) ≤ 0 := by omega
    simp only [hc, if_true, Sys.returned, if_neg hpos]
    refine ⟨⟨by simp [hlen], by simp⟩, ?_⟩
    simp only [Sys.abs, Sys.phase, hstr, receiving, if_pos hcomplete]
  · simp only [hc, Bool.false_eq_true, if_false]
    have hnl : ¬some c = some newline := fun h => hc (beq_iff_eq.mpr (Option.some.inj h))
    split
    · next hmore =>
      have hnot : ¬Complete (s.recvline.take ptr ++ [c]) := by
        rw [Complete, hlast, hlen', not_or]
        exact ⟨hnl, by omega⟩
      refine ⟨⟨by simp [hlen], ?_⟩, ?_⟩
      · rintro n' ptr' hpc
        obtain ⟨rfl, rfl⟩ := CliPc.reading.inj hpc
        exact ⟨by omega, hmore⟩
      · simp only [Sys.abs, Sys.phase, htake, receiving, if_neg hnot]
    · next hfull =>
      have hcomplete : Complete (s.recvline.take ptr ++ [c]) := by
        right
        rw [hlen']
        omega
      have hpos : ¬(n : ℤ) + 1 ≤ 0 := by omega
      simp only [Sys.returned, if_neg hpos]
      refine ⟨⟨by simp [hlen], by simp⟩, ?_⟩
      simp only [Sys.abs, Sys.phase, hstr, receiving, if_pos hcomplete]

/-- The end of file. -/
theorem got_eof (hlen : s.recvline.length = maxLine) (hn : n = ptr + 1) (hlt : n < maxLine)
    (hzero : 0 ∉ s.recvline.take ptr) (hcli : s.cli = .reading n ptr) (hback : s.abs.back = [])
    (hgone : s.abs.srv.gone = true) :
    Valid (s.got n ptr .eof) ∧ Hangs s.abs (s.got n ptr .eof).abs := by
  have hphase : s.abs.phase = .recv (s.recvline.take ptr) := by
    simp only [Sys.abs, Sys.phase, hcli]
  have hstr := cstring_set (show ptr < s.recvline.length by omega) hzero
  simp only [Sys.got, body, eofCount, Sys.returned]
  split
  · next hzero =>
    obtain rfl : ptr = 0 := by omega
    rw [List.take_zero] at hphase
    exact ⟨⟨by simp [hlen], by simp⟩, .quit hphase hback hgone⟩
  · next hpos =>
    have hne : s.recvline.take ptr ≠ [] := by
      intro hnil
      have := congrArg List.length hnil
      rw [List.length_take, List.length_nil] at this
      omega
    refine ⟨⟨by simp [hlen], by simp⟩, ?_⟩
    have hs := Hangs.part hphase hne hback hgone
    rw [← hstr] at hs
    exact hs

end Got

/-- What a step is without the buffers. -/
def Simulates (k : Kind) (s s' : State) : Prop :=
  match k with
  | .works => Works s s' ∨ Hangs s s'
  | .interrupted => s' = s
  | .fails => Fails s s'

section Simulation

variable {s s' : Sys} {res : Except Errno ℕ}

theorem phase_sending {left : List UInt8} (hcli : s.cli = cliWriting left) :
    s.phase = sending left := by
  by_cases hleft : left = []
  · simp [Sys.phase, hcli, cliWriting, sending, hleft]
  · simp [Sys.phase, hcli, cliWriting, sending, hleft]

theorem valid_sending {left : List UInt8} (hlen : s.recvline.length = maxLine)
    (hcli : s.cli = cliWriting left) : Valid s := by
  refine ⟨hlen, fun n ptr h => ?_⟩
  rw [hcli] at h
  unfold cliWriting at h
  split at h
  · obtain ⟨rfl, rfl⟩ := CliPc.reading.inj h
    exact ⟨rfl, by decide⟩
  · cases h

/-- A call that fails: it is made again, or the process exits. -/
theorem simulates_error {e : Errno} {t u : Sys}
    (hs : (if e = .eintr then some t else some u) = some s') (hsame : Valid t ∧ t.abs = s.abs)
    (hfails : Valid u ∧ Fails s.abs u.abs) :
    Valid s' ∧ Simulates (kindOf (.error e)) s.abs s'.abs := by
  rw [kindOf]
  split at hs
  · next he =>
    obtain rfl := Option.some.inj hs
    exact ⟨hsame.1, by rw [if_pos he]; exact hsame.2⟩
  · next he =>
    obtain rfl := Option.some.inj hs
    exact ⟨hfails.1, by rw [if_neg he]; exact hfails.2⟩

theorem line_eq_nil {input : List UInt8} (h : line input = []) : input = [] := by
  by_contra hne
  exact line_ne_nil hne h

theorem simulates_fgets {ok : Bool} (hv : Valid s) (hs : s.client (.fgets ok) = some s') :
    Valid s' ∧ Simulates (Act.fgets ok).kind s.abs s'.abs := by
  obtain ⟨hcli, hs⟩ := Option.ite_none_right_eq_some.mp hs
  have hphase : s.abs.phase = .idle := by simp only [Sys.abs, Sys.phase, hcli]
  cases ok with
  | false =>
    obtain rfl := Option.some.inj hs
    exact ⟨⟨hv.length_eq, nofun⟩, .cli⟩
  | true =>
    rw [if_neg (by decide)] at hs
    split at hs
    · next hline =>
      obtain rfl := Option.some.inj hs
      exact ⟨⟨hv.length_eq, nofun⟩, .inl (.eof hphase (line_eq_nil hline))⟩
    · next hline =>
      obtain rfl := Option.some.inj hs
      have hne : s.abs.input ≠ [] := by
        intro hnil
        exact hline (by rw [show s.input = [] from hnil]; rfl)
      refine ⟨valid_sending hv.length_eq rfl, .inl ?_⟩
      have hsend := phase_sending (s := { s with
        input := s.input.drop (line s.input).length, cli := cliWriting (sendline s.input) }) rfl
      have hworks := Works.line hphase hne
      rw [show s.abs.input = s.input from rfl, ← hsend] at hworks
      exact hworks

theorem simulates_write (hv : Valid s) (hs : s.client (.write res) = some s') :
    Valid s' ∧ Simulates (Act.write res).kind s.abs s'.abs := by
  unfold Sys.client at hs
  dsimp only at hs
  split at hs
  · exact simulates_error hs ⟨hv, rfl⟩ ⟨⟨hv.length_eq, nofun⟩, .cli⟩
  · next left k hcli =>
    obtain ⟨⟨hpos, hle⟩, rfl⟩ := Option.ite_some_none_eq_some.mp hs
    have hphase : s.abs.phase = .send left := by simp only [Sys.abs, Sys.phase, hcli]
    refine ⟨valid_sending hv.length_eq rfl, .inl ?_⟩
    have hsend := phase_sending (s := { s with
      up := s.up ++ left.take k, cli := cliWriting (left.drop k) }) rfl
    have hworks := Works.write k hphase hpos hle
    rw [← hsend] at hworks
    exact hworks
  · cases hs

theorem simulates_fputs {ok : Bool} (hv : Valid s) (hs : s.client (.fputs ok) = some s') :
    Valid s' ∧ Simulates (Act.fputs ok).kind s.abs s'.abs := by
  obtain ⟨hcli, hs⟩ := Option.ite_none_right_eq_some.mp hs
  have hphase : s.abs.phase = .shows (cstring s.recvline 0) := by
    simp only [Sys.abs, Sys.phase, hcli]
  cases ok with
  | false =>
    obtain rfl := Option.some.inj hs
    exact ⟨⟨hv.length_eq, nofun⟩, .cli⟩
  | true =>
    obtain rfl := Option.some.inj hs
    exact ⟨⟨hv.length_eq, nofun⟩, .inl (.shows hphase)⟩

section Reading

variable {n ptr : ℕ} (hv : Valid s) (hzero : 0 ∉ s.abs.phase.got ++ s.abs.back)
  (hcli : s.cli = .reading n ptr)

include hcli in
theorem phase_reading : s.abs.phase = .recv (s.recvline.take ptr) := by
  simp only [Sys.abs, Sys.phase, hcli]

include hv hzero hcli in
/-- The next byte is there, whether it has been read before or not. -/
theorem simulates_byte {r : Rline} {down : List UInt8} {c : UInt8}
    (hback : s.abs.back = c :: (r.unread ++ down)) :
    Valid ({ s with rl := r, down }.got n ptr (.byte c)) ∧
      Works s.abs ({ s with rl := r, down }.got n ptr (.byte c)).abs := by
  obtain ⟨hn, hlt⟩ := hv.reading n ptr hcli
  have hphase := phase_reading hcli
  have hzero' : 0 ∉ s.recvline.take ptr ++ [c] := by
    rw [hphase, hback, Phase.got, List.append_cons] at hzero
    exact fun h => hzero (List.mem_append_left _ h)
  obtain ⟨hvalid, habs⟩ := got_byte (s := { s with rl := r, down }) hv.length_eq hn hlt hzero'
  refine ⟨hvalid, ?_⟩
  rw [habs]
  exact .byte hphase hback

include hv hzero hcli in
/-- `my_read` finds a byte in its buffer. -/
theorem simulates_take (hs : s.client .take = some s') :
    Valid s' ∧ Simulates Act.take.kind s.abs s'.abs := by
  simp only [Sys.client, hcli] at hs
  split at hs
  · next hcnt =>
    obtain rfl := Option.some.inj hs
    obtain ⟨c, r', hnext, hunread⟩ := s.rl.next_unread hcnt
    have hback : s.abs.back = c :: (r'.unread ++ s.down) := by
      simp only [Sys.abs, hunread, List.cons_append]
    rw [hnext]
    obtain ⟨hvalid, hworks⟩ := simulates_byte hv hzero hcli hback
    exact ⟨hvalid, .inl hworks⟩
  · cases hs

include hv hzero hcli in
/-- `my_read` reads. -/
theorem simulates_read (hs : s.client (.read res) = some s') :
    Valid s' ∧ Simulates (Act.read res).kind s.abs s'.abs := by
  obtain ⟨hn, hlt⟩ := hv.reading n ptr hcli
  simp only [Sys.client, hcli] at hs
  split at hs
  · cases hs
  next hcnt =>
  have hunread : s.rl.unread = [] := Rline.unread_of_cnt_nonpos (by omega)
  cases res with
  | error e =>
    simp only [Sys.read] at hs
    have habs : { s with rl := (s.rl.fill (.error e)).2 }.abs = s.abs := by
      simp only [Sys.abs, hunread, Rline.fill_error_unread, Sys.phase]
    refine simulates_error hs ⟨⟨hv.length_eq, hv.reading⟩, habs⟩ ⟨⟨hv.length_eq, nofun⟩, ?_⟩
    rw [← habs]
    exact .cli
  | ok k =>
    simp only [Sys.read] at hs
    obtain ⟨hread, rfl⟩ := Option.ite_some_none_eq_some.mp hs
    cases hdown : s.down.take k with
    | nil =>
      -- the end of file
      have hk : k = 0 := by
        by_contra hne
        rw [readOk, if_neg hne, decide_eq_true_iff] at hread
        have := congrArg List.length hdown
        rw [List.length_take, List.length_nil] at this
        omega
      subst hk
      rw [readOk, if_pos rfl, Bool.and_eq_true, List.isEmpty_iff] at hread
      obtain ⟨r', hfill, hunread'⟩ := s.rl.fill_nil
      rw [hfill]
      have habs : { s with down := s.down.drop 0, rl := r' }.abs = s.abs := by
        simp only [Sys.abs, hunread, hunread', Sys.phase, List.drop_zero]
      have hgone : s.abs.srv.gone = true := by
        rw [← hread.2, Sys.abs]
        cases s.srv <;> rfl
      have hzero' : 0 ∉ s.recvline.take ptr := by
        rw [phase_reading hcli, Phase.got] at hzero
        exact fun h => hzero (List.mem_append_left _ h)
      have hback : { s with down := s.down.drop 0, rl := r' }.abs.back = [] := by
        rw [habs]
        simp only [Sys.abs, hunread, hread.1, List.append_nil]
      obtain ⟨hvalid, hhangs⟩ := got_eof (s := { s with down := s.down.drop 0, rl := r' })
        hv.length_eq hn hlt hzero' hcli hback hgone
      rw [habs] at hhangs
      exact ⟨hvalid, .inr hhangs⟩
    | cons c bs =>
      obtain ⟨r', hfill, hunread'⟩ := s.rl.fill_cons c bs
      have hback : s.abs.back = c :: (r'.unread ++ s.down.drop k) := by
        rw [hunread', ← List.cons_append, ← hdown, List.take_append_drop]
        simp only [Sys.abs, hunread, List.nil_append]
      rw [hfill]
      obtain ⟨hvalid, hworks⟩ := simulates_byte hv hzero hcli hback
      exact ⟨hvalid, .inl hworks⟩

end Reading

/-- A step of the server. -/
theorem simulates_srvRead (hv : Valid s) (hs : s.server (.srvRead res) = some s') :
    Valid s' ∧ Simulates (Act.srvRead res).kind s.abs s'.abs := by
  obtain ⟨hsrv, hs⟩ := Option.ite_none_right_eq_some.mp hs
  have hserve : s.abs.srv = .read := by simp only [Sys.abs, hsrv, SrvPc.serve]
  cases res with
  | error e => exact simulates_error hs ⟨hv, rfl⟩ ⟨⟨hv.length_eq, hv.reading⟩, .srv⟩
  | ok k =>
    obtain ⟨hread, hs⟩ := Option.ite_none_right_eq_some.mp hs
    split at hs
    · next hk =>
      obtain rfl := Option.some.inj hs
      rw [readOk, if_pos hk, Bool.and_eq_true, List.isEmpty_iff] at hread
      refine ⟨⟨hv.length_eq, hv.reading⟩, .inl (.srvEof hserve hread.1 ?_)⟩
      have hgone := hread.2
      simp only [Sys.abs, Sys.phase]
      cases h : s.cli with
      | fgets | writen | reading | fputs => rw [h] at hgone; cases hgone
      | returned => exact .inl rfl
      | exited => exact .inr rfl
    · next hk =>
      obtain rfl := Option.some.inj hs
      rw [readOk, if_neg hk, decide_eq_true_iff] at hread
      exact ⟨⟨hv.length_eq, hv.reading⟩,
        .inl (.srvRead k hserve (Nat.pos_of_ne_zero hk) hread.2)⟩

theorem serve_srvWriting (left : List UInt8) : (srvWriting left).serve = serving left := by
  unfold srvWriting serving
  split <;> rfl

theorem simulates_srvWrite (hv : Valid s) (hs : s.server (.srvWrite res) = some s') :
    Valid s' ∧ Simulates (Act.srvWrite res).kind s.abs s'.abs := by
  unfold Sys.server at hs
  dsimp only at hs
  split at hs
  · exact simulates_error hs ⟨hv, rfl⟩ ⟨⟨hv.length_eq, hv.reading⟩, .srv⟩
  · next left k hsrv =>
    obtain ⟨⟨hpos, hle⟩, rfl⟩ := Option.ite_some_none_eq_some.mp hs
    have hserve : s.abs.srv = .writen left := by simp only [Sys.abs, hsrv, SrvPc.serve]
    have hworks := Works.srvWrite k hserve hpos hle
    refine ⟨⟨hv.length_eq, hv.reading⟩, .inl ?_⟩
    rw [← serve_srvWriting] at hworks
    simp only [Sys.abs, List.append_assoc] at hworks ⊢
    exact hworks
  · cases hs

/-- **A step is one of the system without the buffers.** -/
theorem simulates {a : Act} (hv : Valid s)
    (hzero : s.abs.phase ≠ .dead → 0 ∉ s.abs.phase.got ++ s.abs.back) (hs : step s a = some s') :
    Valid s' ∧ Simulates a.kind s.abs s'.abs := by
  cases a with
  | fgets ok => exact simulates_fgets hv hs
  | write res => exact simulates_write hv hs
  | fputs ok => exact simulates_fputs hv hs
  | srvRead res => exact simulates_srvRead hv hs
  | srvWrite res => exact simulates_srvWrite hv hs
  | read res =>
    cases hcli : s.cli with
    | reading n ptr =>
      exact simulates_read hv (hzero (by rw [phase_reading hcli]; nofun)) hcli hs
    | _ => simp [step, Sys.client, hcli] at hs
  | take =>
    cases hcli : s.cli with
    | reading n ptr =>
      exact simulates_take hv (hzero (by rw [phase_reading hcli]; nofun)) hcli hs
    | _ => simp [step, Sys.client, hcli] at hs

end Simulation

/-! ### Runs -/

theorem valid_init (input : List UInt8) (recvline : Vector UInt8 maxLine) :
    Valid (init input recvline) := ⟨Vector.length_toList, nofun⟩

theorem abs_init (input : List UInt8) (recvline : Vector UInt8 maxLine) :
    (init input recvline).abs = ⟨.idle, input, [], [], .read, []⟩ := rfl

/-- The bytes, in the system with the buffers. -/
structure Inv (input : List UInt8) (s : Sys) : Prop where
  valid : Valid s
  flow : Flow input s.abs

section Runs

variable {input : List UInt8} {s s' : Sys} {a : Act}

theorem inv_init (input : List UInt8) (recvline : Vector UInt8 maxLine) :
    Inv input (init input recvline) := by
  refine ⟨valid_init input recvline, ?_⟩
  rw [abs_init]
  exact flow_of_whole_lost (fun _ => rfl) nofun

theorem Inv.simulates (h : Inv input s) (hs : step s a = some s') :
    Valid s' ∧ Simulates a.kind s.abs s'.abs :=
  Echo.simulates h.valid h.flow.zero_notMem hs

theorem Inv.step (h : Inv input s) (hs : step s a = some s') : Inv input s' := by
  obtain ⟨hvalid, hsim⟩ := h.simulates hs
  refine ⟨hvalid, ?_⟩
  cases hk : a.kind with
  | works =>
    rw [hk] at hsim
    rcases hsim with hworks | hhangs
    · exact h.flow.works hworks
    · exact h.flow.hangs hhangs
  | interrupted =>
    rw [hk] at hsim
    rw [show s'.abs = s.abs from hsim]
    exact h.flow
  | fails =>
    rw [hk] at hsim
    exact h.flow.fails hsim

end Runs

/-- **What the client shows is a first part of what it was given**, whatever fails and however the
bytes are cut on their way.  An input without zero bytes is sent as it is. -/
theorem output_isPrefix (input : List UInt8) (recvline : Vector UInt8 maxLine) (s : Sys)
    (h : Reachable step (init input recvline) s) :
    s.output <+: (pieces input).flatten ∧ (0 ∉ input → s.output <+: input) := by
  have hinv : Inv input s :=
    exec_invariant (fun s a s' hI hs => Inv.step hI hs) (inv_init input recvline) h
  refine ⟨hinv.flow.out, fun hzero => ?_⟩
  have hout := hinv.flow.out
  rwa [flatten_pieces input hzero] at hout

/-- The client shows the first line of two, and then the server is gone. -/
def cutShort : List Act :=
  [.fgets true, .write (.ok 2), .srvRead (.ok 2), .srvWrite (.ok 2), .read (.ok 2), .take,
    .fputs true, .fgets true, .srvRead (.error (.other 5)), .write (.ok 2), .read (.ok 0)]

theorem output_isPrefix_cutShort :
    ∃ s, Reachable step (init [97, 10, 98, 10] (Vector.replicate maxLine 0)) s ∧
      s.output = [97, 10] ∧ s.cli = .exited ∧ s.output <+: [97, 10, 98, 10] := by
  have hrun : ∃ s, exec step (init [97, 10, 98, 10] (Vector.replicate maxLine 0)) cutShort =
      some s ∧ s.output = [97, 10] ∧ s.cli = .exited := ⟨_, rfl, rfl, rfl⟩
  obtain ⟨s, hs, hout, hcli⟩ := hrun
  exact ⟨s, ⟨_, hs⟩, hout, hcli, (output_isPrefix _ _ s ⟨_, hs⟩).2 (by decide)⟩

/-! ### Runs in which nothing fails -/

/-- The lines, in the system with the buffers. -/
structure InTurn (input : List UInt8) (s : Sys) : Prop extends Inv input s where
  turn : Turn input s.abs

section InTurn

variable {input : List UInt8} {s s' : Sys} {a : Act}

theorem inTurn_init (input : List UInt8) (recvline : Vector UInt8 maxLine) :
    InTurn input (init input recvline) :=
  ⟨inv_init input recvline, by rw [abs_init]; exact Turn.init input⟩

theorem InTurn.step (h : InTurn input s) (ha : a.kind ≠ .fails) (hs : step s a = some s') :
    InTurn input s' ∧ s'.abs.measure + (if a.kind = .works then 1 else 0) ≤ s.abs.measure := by
  have hsim := (h.simulates hs).2
  have hinv := h.toInv.step hs
  cases hk : a.kind with
  | works =>
    rw [hk] at hsim
    rcases hsim with hworks | hhangs
    · exact ⟨⟨hinv, h.turn.works hworks⟩, works_lt hworks⟩
    · exact absurd hhangs h.turn.not_hangs
  | interrupted =>
    rw [hk] at hsim
    have hsame : s'.abs = s.abs := hsim
    refine ⟨⟨hinv, by rw [hsame]; exact h.turn⟩, ?_⟩
    rw [hsame, if_neg (by decide)]
    omega
  | fails => exact absurd hk ha

theorem cli_of_phase :
    (s.phase = .idle → s.cli = .fgets) ∧ (∀ l, s.phase = .send l → s.cli = .writen l) ∧
    (∀ g, s.phase = .recv g → ∃ n ptr, s.cli = .reading n ptr) ∧
    (∀ g, s.phase = .shows g → s.cli = .fputs) ∧ (s.phase = .done → s.cli = .returned) ∧
    (s.phase = .dead → s.cli = .exited) := by
  unfold Sys.phase
  cases s.cli <;> simp

theorem srv_of_serve : (s.srv.serve = .read → s.srv = .read) ∧
    (∀ l, s.srv.serve = .writen l → s.srv = .writen l) ∧
    (s.srv.serve = .done → s.srv = .returned) := by
  cases s.srv <;> simp [SrvPc.serve]

/-- What works without the buffers works with them. -/
theorem exists_step {t : State} (h : Works s.abs t) :
    ∃ a : Act, a.kind = .works ∧ step s a ≠ none := by
  obtain ⟨hidle, hsend, hrecv, hshows, hdone, hdead⟩ := @cli_of_phase s
  obtain ⟨hread, hwriten, -⟩ := @srv_of_serve s
  have hfgets : s.cli = .fgets → step s (.fgets true) ≠ none := by
    intro hcli
    simp only [step, Sys.client, if_pos hcli, Bool.true_eq_false, if_false]
    split <;> simp
  cases h with
  | eof hphase hinput => exact ⟨.fgets true, rfl, hfgets (hidle hphase)⟩
  | line hphase hinput => exact ⟨.fgets true, rfl, hfgets (hidle hphase)⟩
  | @write left k hphase hpos hle =>
    refine ⟨.write (.ok k), rfl, ?_⟩
    simp [step, Sys.client, hsend left hphase, hpos, hle]
  | @byte g c b hphase hback =>
    obtain ⟨n, ptr, hcli⟩ := hrecv g hphase
    by_cases hcnt : 0 < s.rl.cnt
    · exact ⟨.take, rfl, by simp [step, Sys.client, hcli, hcnt]⟩
    · -- the byte is still in the kernel
      have hdown : s.down = c :: b := by
        have hunread : s.rl.unread = [] := Rline.unread_of_cnt_nonpos (by omega)
        simpa only [Sys.abs, hunread, List.nil_append] using hback
      refine ⟨.read (.ok 1), rfl, ?_⟩
      have hok : readOk s.down s.srv.gone maxLine 1 = true := by
        rw [readOk, if_neg (by decide), hdown]
        simp [maxLine]
      simp [step, Sys.client, hcli, hcnt, Sys.read, hok]
  | shows hphase =>
    exact ⟨.fputs true, rfl, by simp [step, Sys.client, hshows _ hphase]⟩
  | srvRead k hsrv hpos hle =>
    refine ⟨.srvRead (.ok 1), rfl, ?_⟩
    have hup : 1 ≤ s.up.length := Nat.le_trans hpos hle
    have hok : readOk s.up s.cli.gone maxLine 1 = true := by
      rw [readOk, if_neg (by decide), decide_eq_true_iff]
      exact ⟨by decide, hup⟩
    simp [step, Sys.server, hread hsrv, hok]
  | @srvWrite left k hsrv hpos hle =>
    exact ⟨.srvWrite (.ok k), rfl, by simp [step, Sys.server, hwriten left hsrv, hpos, hle]⟩
  | srvEof hsrv hup hphase =>
    refine ⟨.srvRead (.ok 0), rfl, ?_⟩
    have hgone : s.cli.gone = true := by
      rcases hphase with hphase | hphase
      · rw [hdone hphase]
        rfl
      · rw [hdead hphase]
        rfl
    have hup : s.up = [] := hup
    have hok : readOk s.up s.cli.gone maxLine 0 = true := by
      rw [readOk, if_pos rfl, hup, hgone]
      rfl
    simp [step, Sys.server, hread hsrv, hok]

end InTurn

/-- **When nothing fails, all lines come back if they are complete**, and if one is not the two
sides wait for each other.  In either case they stop after a number of steps that is bounded by the
length of the input. -/
theorem echo_stops (input : List UInt8) (recvline : Vector UInt8 maxLine) (as : List Act) (s : Sys)
    (hrun : exec step (init input recvline) as = some s) (hok : ∀ a ∈ as, a.kind ≠ .fails) :
    as.countP (·.kind = .works) ≤ 7 * input.length + 2 ∧
      ((∀ a : Act, a.kind = .works → step s a = none) →
        if ∀ p ∈ pieces input, Complete p then
          s.cli = .returned ∧ s.srv = .returned ∧ s.output = (pieces input).flatten
        else
          (∃ n ptr, s.cli = .reading n ptr) ∧ s.srv = .read ∧ s.up = [] ∧ s.down = [] ∧
            ∃ shown p rest, pieces input = shown ++ p :: rest ∧ (∀ q ∈ shown, Complete q) ∧
              ¬Complete p ∧ s.output = shown.flatten) := by
  have hkeeps : ∀ s a s', InTurn input s → a.kind ≠ .fails → step s a = some s' →
      InTurn input s' := fun s a s' hI ha hs => (InTurn.step hI ha hs).1
  have hbound : ∀ s a s', InTurn input s → a.kind ≠ .fails → step s a = some s' →
      s'.abs.measure + (if decide (a.kind = .works) then 1 else 0) ≤ s.abs.measure := by
    intro s a s' hI ha hs
    simpa using (InTurn.step hI ha hs).2
  have hinit := inTurn_init input recvline
  have halong : Along step (fun _ a => a.kind ≠ .fails) (init input recvline) as :=
    along_of_forall as _ fun a ha _ => hok a ha
  have hturn := exec_invariant_along hkeeps as _ s hinit halong hrun
  have hcount := countP_add_le hkeeps hbound as _ s hinit halong hrun
  refine ⟨?_, fun hstuck => ?_⟩
  · have hmeasure : (init input recvline).abs.measure = 7 * input.length + 2 := by
      rw [abs_init]
      simp [State.measure]
    omega
  have hnone : ∀ t, ¬Works s.abs t := by
    intro t ht
    obtain ⟨a, ha, hne⟩ := exists_step ht
    exact hne (hstuck a ha)
  obtain ⟨-, -, hrecv, -, hdone, -⟩ := @cli_of_phase s
  obtain ⟨hread, -, hreturned⟩ := @srv_of_serve s
  rcases hturn.turn.stuck hnone with hfin | hwaits
  · have hall : ∀ p ∈ pieces input, Complete p := by
      obtain ⟨shown, hcomplete, -, hpieces⟩ := hturn.turn.lines
      rw [State.current, hfin.phase_eq, if_neg (by decide), hturn.turn.ended hfin.phase_eq,
        pieces_nil, List.append_nil, List.append_nil] at hpieces
      rwa [hpieces]
    rw [if_pos hall]
    exact ⟨hdone hfin.phase_eq, hreturned hfin.srv_eq, hfin.output_eq⟩
  · obtain ⟨g, hg⟩ := hwaits.phase_eq
    obtain ⟨hback, hup⟩ := hwaits.queues
    obtain ⟨shown, p, rest, hpieces, hcomplete, hnot, hout⟩ := hwaits.lines
    have hall : ¬∀ p ∈ pieces input, Complete p := by
      intro hall
      exact hnot (hall p (by rw [hpieces]; simp))
    rw [if_neg hall]
    exact ⟨hrecv g hg, hread hwaits.srv_eq, hup, (List.append_eq_nil_iff.mp hback).2,
      shown, p, rest, hpieces, hcomplete, hnot, hout⟩

/-- The input is a line without a newline, as far as it goes. -/
def partLine : List Act :=
  [.fgets true, .write (.ok 1), .srvRead (.ok 1), .srvWrite (.error .eintr), .srvWrite (.ok 1),
    .read (.ok 1)]

theorem echo_stops_partLine :
    ∃ s, exec step (init [97] (Vector.replicate maxLine 0)) partLine = some s ∧
      partLine.countP (·.kind = .works) ≤ 9 ∧ s.output = [] ∧ s.cli = .reading 2 1 := by
  have hrun : ∃ s, exec step (init [97] (Vector.replicate maxLine 0)) partLine = some s ∧
      s.output = [] ∧ s.cli = .reading 2 1 := ⟨_, rfl, rfl, rfl⟩
  obtain ⟨s, hs, hout, hcli⟩ := hrun
  exact ⟨s, hs, (echo_stops [97] (Vector.replicate maxLine 0) partLine s hs (by decide)).1, hout,
    hcli⟩

end TcpIp.Echo
