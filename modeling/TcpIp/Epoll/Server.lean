import Mathlib.Logic.Function.Basic
import TcpIp.Kernel
import TcpIp.Lib.Run

/-!
# The edge-triggered echo server

`epoll.cpp` is a single-threaded echo server: `main` waits in `epoll_wait` for a
batch of events and treats each event of the batch in turn, accepting one
connection when the event is for the listening socket and calling `handle`
otherwise; `handle` reads once and writes the bytes back once.

The model is a transition system.  Its state holds what the kernel knows (the
connections with their queued bytes, the descriptor table, the epoll interest
set, the events not yet delivered) and what the server knows (`curfds`, the rest
of the batch).  An action is either a move of the network or one pass of the
server through its loop body, together with the results the kernel gave to the
system calls of that pass, so every interleaving and every outcome of a call is
some list of actions.

Descriptors are numbers the kernel may hand out again after `close`;
connections are numbered in the order in which they complete and keep their
number for good, so the history of a connection survives its descriptor.

## Main definitions

* `Conn` — one connection, with the bytes read from it and written to it so far.
* `handle`, `setnonblocking` — the two functions of the source.
* `Sys`, `Act`, `step` — the states, the actions and the transition function.
* `init` — the state in which `main` enters its loop.
-/

namespace TcpIp
namespace Epoll

/-- `MAXEPOLLSIZE`. -/
def maxEpollSize : ℤ := 10000

/-- `MAXLINE`, the size of the buffer of `handle`. -/
def maxLine : ℕ := 10240

/-- A file descriptor. -/
abbrev Fd := ℕ

/-- The number of a connection. -/
abbrev ConnId := ℕ

/-! ### Connections and the system calls on them -/

/-- A connection as the kernel sees it, with its history on the server's side. -/
structure Conn where
  /-- Bytes that have arrived and have not been read. -/
  rcvq : List UInt8 := []
  /-- The peer has closed its side. -/
  fin : Bool := false
  /-- An error of the connection, reported by the next `read`. -/
  soError : Option Errno := none
  /-- `O_NONBLOCK` is set on its descriptor. -/
  nonblocking : Bool := false
  /-- Every byte `read` has returned. -/
  rd : List UInt8 := []
  /-- Every byte `write` has accepted. -/
  wr : List UInt8 := []
  deriving DecidableEq, Repr, Inhabited

/-- The connection has something to report to a reader: bytes, the end of file or
an error. -/
def Conn.readable (c : Conn) : Bool := !c.rcvq.isEmpty || c.fin || c.soError.isSome

/-- What `read` returned. -/
inductive ReadRes where
  /-- A positive number of bytes. -/
  | data (n : ℕ)
  /-- `0`: the peer has closed the connection. -/
  | eof
  /-- `-1`, with this error. -/
  | fail (e : Errno)
  deriving DecidableEq, Repr, Inhabited

/-- The results `read(fd, buf, len)` may give on a connection.  Any positive
number of queued bytes up to `len` may be returned, and a signal may interrupt
the call; `EAGAIN` is the answer of a nonblocking descriptor with nothing to
report, where a blocking one waits. -/
def Conn.readOk (c : Conn) (len : ℕ) : ReadRes → Bool
  | .data n => decide (0 < n ∧ n ≤ len ∧ n ≤ c.rcvq.length)
  | .eof => c.rcvq.isEmpty && c.fin && c.soError.isNone
  | .fail .eintr => true
  | .fail .eagain => c.nonblocking && !c.readable
  | .fail e => decide (c.soError = some e)

/-- What `write` returned. -/
inductive WriteRes where
  /-- The number of bytes accepted. -/
  | wrote (n : ℕ)
  /-- `-1`, with this error. -/
  | fail (e : Errno)
  deriving DecidableEq, Repr, Inhabited

/-- The number of bytes the kernel took over. -/
def WriteRes.count : WriteRes → ℕ
  | .wrote n => n
  | .fail _ => 0

/-- The results a `write` of `len` bytes may give on a connection.  `EPIPE` is
not among them: it comes with `SIGPIPE`, which ends the process. -/
def Conn.writeOk (c : Conn) (len : ℕ) : WriteRes → Bool
  | .wrote n => decide (0 < n ∧ n ≤ len)
  | .fail .eagain => c.nonblocking
  | .fail e => decide (e ≠ .epipe)

/-- The results the `write` that follows a `read` may give: there is one only
when `read` returned bytes. -/
def Conn.answerOk (c : Conn) (nread : ReadRes) (w : WriteRes) : Bool :=
  match nread with
  | .data n => c.writeOk n w
  | _ => true

/-- The connection after `read` has returned, and the bytes placed in the
caller's buffer. -/
def Conn.read (c : Conn) : ReadRes → Conn × List UInt8
  | .data n => ({ c with rcvq := c.rcvq.drop n, rd := c.rd ++ c.rcvq.take n }, c.rcvq.take n)
  | .eof => (c, [])
  | .fail _ => (c, [])

/-- The connection after a `write` of `buf` has returned. -/
def Conn.write (c : Conn) (buf : List UInt8) (w : WriteRes) : Conn :=
  { c with wr := c.wr ++ buf.take w.count }

/-! ### The functions of the source -/

/-- `setnonblocking(sockfd)`, given whether `fcntl(F_SETFL)` succeeds. -/
def setnonblocking (c : Conn) (fcntlOk : Bool) : Conn × ℤ :=
  if fcntlOk then ({ c with nonblocking := true }, 0) else (c, -1)

/-- `handle(connfd)`: one `read` and, if it returned bytes, one `write` of them
whose result is not looked at.  Returns `-1` after having closed the
descriptor. -/
def handle (c : Conn) (nread : ReadRes) (w : WriteRes) : Conn × ℤ :=
  let (c, buf) := c.read nread
  match nread with
  | .eof => (c, -1)
  | .fail _ => (c, -1)
  | .data _ => (c.write buf w, 0)

/-! ### The transition system -/

/-- The server together with the kernel. -/
structure Sys where
  /-- The connections, by number.  One that has not completed yet is in the
  state it will have then. -/
  conns : ConnId → Conn
  /-- How many connections have completed. -/
  nconn : ℕ
  /-- Completed connections that have not been accepted. -/
  backlog : List ConnId
  /-- The descriptor table: which connection a descriptor refers to. -/
  fds : Fd → Option ConnId
  /-- The listening socket. -/
  listenfd : Fd
  /-- The descriptors registered with `EPOLLIN | EPOLLET`. -/
  epollSet : List Fd
  /-- The descriptors with an event that `epoll_wait` has not returned yet. -/
  ready : Fd → Bool
  /-- The counter of the source. -/
  curfds : ℤ
  /-- The other counter of the source. -/
  acceptCount : ℕ
  /-- The events of the current batch that are still to be treated; `[]` when
  the server is about to call `epoll_wait`. -/
  events : List Fd
  /-- The process has not returned from `main`. -/
  running : Bool

/-- An action: a move of the network, or one pass of the server through its
outer or inner loop with the results of the system calls made in it. -/
inductive Act where
  /-- A new connection completes and waits to be accepted. -/
  | connect
  /-- Bytes arrive on a connection. -/
  | arrive (c : ConnId) (bs : List UInt8)
  /-- The peer closes its side. -/
  | peerClose (c : ConnId)
  /-- The connection fails with an error for the next `read` to report. -/
  | sockError (c : ConnId) (e : Errno)
  /-- `epoll_wait` returns `-1`. -/
  | waitFail (e : Errno)
  /-- `epoll_wait` returns these events. -/
  | wait (evs : List Fd)
  /-- An event on the listening socket; `accept` returns `-1`. -/
  | acceptFail (e : Errno)
  /-- An event on the listening socket; `accept` returns `connfd`, and this is
  how `fcntl` and `epoll_ctl` fare. -/
  | accept (connfd : Fd) (fcntlOk addOk : Bool)
  /-- An event on another descriptor, and what `read` and `write` return. -/
  | handle (nread : ReadRes) (w : WriteRes)
  deriving DecidableEq, Repr

namespace Sys

/-- The connection is waiting to be accepted or has a descriptor. -/
def live (s : Sys) (c : ConnId) : Bool :=
  s.backlog.contains c || s.epollSet.any fun fd => s.fds fd == some c

/-- The descriptor of the event to be treated next, with the connection it
refers to. -/
def current (s : Sys) : Option (Fd × ConnId) :=
  s.events.head?.bind fun fd => (s.fds fd).map fun c => (fd, c)

/-- Replace a connection. -/
def setConn (s : Sys) (c : ConnId) (x : Conn) : Sys :=
  { s with conns := Function.update s.conns c x }

/-- Something new has happened on a connection: an event is due on the
descriptors registered for it. -/
def announce (s : Sys) (c : ConnId) : Sys :=
  { s with ready := fun fd => s.ready fd || (s.epollSet.contains fd && s.fds fd == some c) }

/-- An edge-triggered event is reported once: fetching it clears it. -/
def fetch (s : Sys) (evs : List Fd) : Sys :=
  { s with ready := fun fd => s.ready fd && !evs.contains fd, events := evs }

/-- `close(connfd)`: the descriptor leaves the table and, with it, the epoll
set. -/
def close (s : Sys) (fd : Fd) : Sys :=
  { s with
    fds := Function.update s.fds fd none
    epollSet := s.epollSet.erase fd
    ready := Function.update s.ready fd false }

/-- `epoll_ctl(EPOLL_CTL_ADD)` of a connected descriptor: an event is due at
once if the connection is already readable. -/
def register (s : Sys) (fd : Fd) (c : ConnId) : Sys :=
  { s with
    fds := Function.update s.fds fd (some c)
    epollSet := s.epollSet ++ [fd]
    ready := Function.update s.ready fd (s.conns c).readable }

theorem current_eq {s : Sys} {fd : Fd} {evs : List Fd} {c : ConnId} (hev : s.events = fd :: evs)
    (hc : s.fds fd = some c) : s.current = some (fd, c) := by
  simp [current, hev, hc]

end Sys

/-- One pass of the inner loop for an event on the listening socket, once
`accept` has returned `connfd` for the connection `c`. -/
def accepted (s : Sys) (c : ConnId) (connfd : Fd) (fcntlOk addOk : Bool) : Sys :=
  let s := { s with acceptCount := s.acceptCount + 1 }
  -- too many connections: `close(connfd)` and nothing else
  if s.curfds ≥ maxEpollSize then s
  else
    -- a failing `setnonblocking` is reported and otherwise ignored
    let s := s.setConn c (setnonblocking (s.conns c) fcntlOk).1
    -- a failing `epoll_ctl` makes `main` return
    if addOk then { s.register connfd c with curfds := s.curfds + 1 }
    else { s with fds := Function.update s.fds connfd (some c), running := false }

/-- One pass of the inner loop for an event on the descriptor `fd`, which is not
the listening socket. -/
def handled (s : Sys) (fd : Fd) (nread : ReadRes) (w : WriteRes) : Option Sys :=
  match s.fds fd with
  -- a descriptor that is not open: `read` fails, `handle` returns `-1`
  | none => if nread = .fail .ebadf then some { s with curfds := s.curfds - 1 } else none
  | some c =>
    let x := s.conns c
    if x.readOk maxLine nread ∧ x.answerOk nread w then
      let (x', rv) := handle x nread w
      let s := s.setConn c x'
      -- `EPOLL_CTL_DEL` fails, the descriptor being closed, and is not checked
      if rv < 0 then some { s.close fd with curfds := s.curfds - 1 } else some s
    else none

/-- The transition function. -/
def step (s : Sys) : Act → Option Sys
  | .connect =>
    some { s with
      nconn := s.nconn + 1
      backlog := s.backlog ++ [s.nconn]
      ready := Function.update s.ready s.listenfd true }
  | .arrive c bs =>
    let x := s.conns c
    if s.live c ∧ bs ≠ [] ∧ x.fin = false then
      some ((s.setConn c { x with rcvq := x.rcvq ++ bs }).announce c)
    else none
  | .peerClose c =>
    if s.live c then some ((s.setConn c { s.conns c with fin := true }).announce c) else none
  | .sockError c e =>
    if s.live c ∧ e.transient = false then
      some ((s.setConn c { s.conns c with soError := some e }).announce c)
    else none
  | .waitFail _ => if s.running ∧ s.events = [] then some s else none
  | .wait evs =>
    -- at least one event, `curfds` of them at most, and one for each descriptor
    if s.running ∧ s.events = [] ∧ evs ≠ [] ∧ evs.Nodup ∧ evs.length ≤ s.curfds ∧
        ∀ fd ∈ evs, fd ∈ s.epollSet ∧ s.ready fd then
      some (s.fetch evs)
    else none
  | .acceptFail _ =>
    match s.events with
    | fd :: evs => if s.running ∧ fd = s.listenfd then some { s with events := evs } else none
    | [] => none
  | .accept connfd fcntlOk addOk =>
    match s.events, s.backlog with
    | fd :: evs, c :: bl =>
      if s.running ∧ fd = s.listenfd ∧ s.fds connfd = none ∧ connfd ≠ s.listenfd then
        some (accepted { s with events := evs, backlog := bl } c connfd fcntlOk addOk)
      else none
    | _, _ => none
  | .handle nread w =>
    match s.events with
    | fd :: evs =>
      if s.running ∧ fd ≠ s.listenfd then handled { s with events := evs } fd nread w else none
    | [] => none

/-- The state in which `main` enters its loop: the listening socket is the only
descriptor in the epoll set and `curfds` is `1`. -/
def init (listenfd : Fd) : Sys where
  conns := fun _ => {}
  nconn := 0
  backlog := []
  fds := fun _ => none
  listenfd := listenfd
  epollSet := [listenfd]
  ready := fun _ => false
  curfds := 1
  acceptCount := 0
  events := []
  running := true

/-! ### What a step can do -/

/-- The steps, case by case: `Trans s a s'` spells out the guard and the effect
of `a` on each path of the code. -/
inductive Trans (s : Sys) : Act → Sys → Prop
  | connect : Trans s .connect
      { s with
        nconn := s.nconn + 1
        backlog := s.backlog ++ [s.nconn]
        ready := Function.update s.ready s.listenfd true }
  | arrive {c : ConnId} {bs : List UInt8} (hlive : s.live c) (hne : bs ≠ [])
      (hfin : (s.conns c).fin = false) : Trans s (.arrive c bs)
        ((s.setConn c { s.conns c with rcvq := (s.conns c).rcvq ++ bs }).announce c)
  | peerClose {c : ConnId} (hlive : s.live c) : Trans s (.peerClose c)
      ((s.setConn c { s.conns c with fin := true }).announce c)
  | sockError {c : ConnId} {e : Errno} (hlive : s.live c) (he : e.transient = false) :
      Trans s (.sockError c e)
        ((s.setConn c { s.conns c with soError := some e }).announce c)
  | waitFail {e : Errno} (hrun : s.running) (hev : s.events = []) : Trans s (.waitFail e) s
  | wait {evs : List Fd} (hrun : s.running) (hev : s.events = []) (hne : evs ≠ [])
      (hnd : evs.Nodup) (hlen : evs.length ≤ s.curfds)
      (hmem : ∀ fd ∈ evs, fd ∈ s.epollSet ∧ s.ready fd) : Trans s (.wait evs) (s.fetch evs)
  | acceptFail {e : Errno} {evs : List Fd} (hrun : s.running)
      (hev : s.events = s.listenfd :: evs) : Trans s (.acceptFail e) { s with events := evs }
  /-- `accept` succeeds but there are too many connections. -/
  | refuse {connfd : Fd} {f b : Bool} {evs : List Fd} {c : ConnId} {bl : List ConnId}
      (hrun : s.running) (hev : s.events = s.listenfd :: evs) (hbl : s.backlog = c :: bl)
      (hcur : maxEpollSize ≤ s.curfds) : Trans s (.accept connfd f b)
        { s with events := evs, backlog := bl, acceptCount := s.acceptCount + 1 }
  /-- `accept` succeeds and so does `epoll_ctl`. -/
  | accept {connfd : Fd} {f : Bool} {evs : List Fd} {c : ConnId} {bl : List ConnId}
      (hrun : s.running) (hev : s.events = s.listenfd :: evs) (hbl : s.backlog = c :: bl)
      (hcur : s.curfds < maxEpollSize) (hfd : s.fds connfd = none) (hne : connfd ≠ s.listenfd) :
      Trans s (.accept connfd f true)
        { ({ s with events := evs, backlog := bl, acceptCount := s.acceptCount + 1 }.setConn c
            (setnonblocking (s.conns c) f).1).register connfd c with curfds := s.curfds + 1 }
  /-- `accept` succeeds and `epoll_ctl` does not: `main` returns. -/
  | abort {connfd : Fd} {f : Bool} {evs : List Fd} {c : ConnId} {bl : List ConnId}
      (hfd : s.fds connfd = none) : Trans s (.accept connfd f false)
        { { s with events := evs, backlog := bl, acceptCount := s.acceptCount + 1 }.setConn c
            (setnonblocking (s.conns c) f).1 with
          fds := Function.update s.fds connfd (some c), running := false }
  /-- An event for a descriptor that is not open. -/
  | stale {fd : Fd} {w : WriteRes} {evs : List Fd} (hrun : s.running)
      (hev : s.events = fd :: evs) (hfd : fd ≠ s.listenfd) (hc : s.fds fd = none) :
      Trans s (.handle (.fail .ebadf) w) { s with events := evs, curfds := s.curfds - 1 }
  /-- `read` returned bytes: `handle` writes them and returns `0`. -/
  | echo {fd : Fd} {n : ℕ} {w : WriteRes} {evs : List Fd} {c : ConnId} (hrun : s.running)
      (hev : s.events = fd :: evs) (hfd : fd ≠ s.listenfd) (hc : s.fds fd = some c)
      (hr : (s.conns c).readOk maxLine (.data n)) (hw : (s.conns c).writeOk n w) :
      Trans s (.handle (.data n) w)
        ({ s with events := evs }.setConn c (handle (s.conns c) (.data n) w).1)
  /-- `read` returned `0` or `-1`: `handle` closes the descriptor and returns `-1`. -/
  | hangup {fd : Fd} {r : ReadRes} {w : WriteRes} {evs : List Fd} {c : ConnId} (hrun : s.running)
      (hev : s.events = fd :: evs) (hfd : fd ≠ s.listenfd) (hc : s.fds fd = some c)
      (hr : (s.conns c).readOk maxLine r) (hnot : ∀ n, r ≠ .data n) :
      Trans s (.handle r w)
        { { s with events := evs }.close fd with curfds := s.curfds - 1 }

/-- `handle` returns `0` after an echo and `-1`, the connection unchanged,
otherwise. -/
theorem handle_data (x : Conn) (n : ℕ) (w : WriteRes) : (handle x (.data n) w).2 = 0 := rfl

theorem handle_of_not_data {r : ReadRes} (hr : ∀ n, r ≠ .data n) (x : Conn) (w : WriteRes) :
    handle x r w = (x, -1) := by
  cases r with
  | data n => exact absurd rfl (hr n)
  | eof => rfl
  | fail e => rfl

theorem trans_of_accepted {s : Sys} {c : ConnId} {bl : List ConnId} {evs : List Fd} {connfd : Fd}
    {f b : Bool} (hrun : s.running) (hev : s.events = s.listenfd :: evs) (hbl : s.backlog = c :: bl)
    (hfd : s.fds connfd = none) (hne : connfd ≠ s.listenfd) :
    Trans s (.accept connfd f b)
      (accepted { s with events := evs, backlog := bl } c connfd f b) := by
  unfold accepted
  simp only [ge_iff_le]
  split
  · next hcur => exact .refuse hrun hev hbl hcur
  · next hcur =>
    cases b with
    | true => exact .accept hrun hev hbl (by omega) hfd hne
    | false => exact .abort hfd

theorem trans_of_handled {s s' : Sys} {fd : Fd} {evs : List Fd} {r : ReadRes} {w : WriteRes}
    (hrun : s.running) (hev : s.events = fd :: evs) (hfd : fd ≠ s.listenfd)
    (h : handled { s with events := evs } fd r w = some s') : Trans s (.handle r w) s' := by
  unfold handled at h
  cases hc : s.fds fd with
  | none =>
    simp only [hc, Option.ite_none_right_eq_some, Option.some.injEq] at h
    obtain ⟨rfl, rfl⟩ := h
    exact .stale hrun hev hfd hc
  | some c =>
    simp only [hc, Option.ite_none_right_eq_some] at h
    obtain ⟨⟨hr, hw⟩, h⟩ := h
    by_cases hdata : ∃ n, r = .data n
    · obtain ⟨n, rfl⟩ := hdata
      rw [handle_data, if_neg (by decide), Option.some.injEq] at h
      exact h ▸ .echo hrun hev hfd hc hr hw
    · have hnot : ∀ n, r ≠ .data n := fun n hn => hdata ⟨n, hn⟩
      have hneg : ((-1 : ℤ) < 0) := by decide
      simp only [handle_of_not_data hnot, hneg, if_true, Sys.setConn, Function.update_eq_self,
        Option.some.injEq] at h
      exact h ▸ .hangup hrun hev hfd hc hr hnot

/-- **What a step can do**: every enabled action takes one of the cases of
`Trans`. -/
theorem trans_of_step {s s' : Sys} {a : Act} (h : step s a = some s') : Trans s a s' := by
  cases a with
  | connect =>
    simp only [step, Option.some.injEq] at h
    exact h ▸ .connect
  | arrive c bs =>
    simp only [step, Option.ite_none_right_eq_some, Option.some.injEq] at h
    obtain ⟨⟨hlive, hne, hfin⟩, rfl⟩ := h
    exact .arrive hlive hne hfin
  | peerClose c =>
    simp only [step, Option.ite_none_right_eq_some, Option.some.injEq] at h
    obtain ⟨hlive, rfl⟩ := h
    exact .peerClose hlive
  | sockError c e =>
    simp only [step, Option.ite_none_right_eq_some, Option.some.injEq] at h
    obtain ⟨⟨hlive, he⟩, rfl⟩ := h
    exact .sockError hlive he
  | waitFail e =>
    simp only [step, Option.ite_none_right_eq_some, Option.some.injEq] at h
    obtain ⟨⟨hrun, hev⟩, rfl⟩ := h
    exact .waitFail hrun hev
  | wait evs =>
    simp only [step, Option.ite_none_right_eq_some, Option.some.injEq] at h
    obtain ⟨⟨hrun, hev, hne, hnd, hlen, hmem⟩, rfl⟩ := h
    exact .wait hrun hev hne hnd hlen hmem
  | acceptFail e =>
    cases hev : s.events with
    | nil => simp [step, hev] at h
    | cons fd evs =>
      simp only [step, hev, Option.ite_none_right_eq_some, Option.some.injEq] at h
      obtain ⟨⟨hrun, rfl⟩, rfl⟩ := h
      exact .acceptFail hrun hev
  | accept connfd f b =>
    cases hev : s.events with
    | nil => simp [step, hev] at h
    | cons fd evs =>
      cases hbl : s.backlog with
      | nil => simp [step, hev, hbl] at h
      | cons c bl =>
        simp only [step, hev, hbl, Option.ite_none_right_eq_some, Option.some.injEq] at h
        obtain ⟨⟨hrun, rfl, hfd, hne⟩, rfl⟩ := h
        exact trans_of_accepted hrun hev hbl hfd hne
  | handle r w =>
    cases hev : s.events with
    | nil => simp [step, hev] at h
    | cons fd evs =>
      simp only [step, hev, Option.ite_none_right_eq_some] at h
      obtain ⟨⟨hrun, hfd⟩, h⟩ := h
      exact trans_of_handled hrun hev hfd h

end Epoll
end TcpIp
