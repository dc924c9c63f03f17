import Mathlib.Logic.Function.Basic
import TcpIp.Lib.Run
import TcpIp.Readline.Stream

/-!
# The line echo server over `select`

`nonblock/tcpservselect03.c` serves many clients from one process: it waits in
`select`, accepts one connection if the listening socket is readable, then goes
through its table of clients, reads one line from each readable one with the
library's `Readline` and writes it back with `Writen`.

The model is a transition system whose actions are the moves of the clients and
the single system calls of the server, so that clients may send at any point, in
particular while the server waits in the middle of a line.  Between system calls
the server is at one of the points of `Pc`; `tick` takes it to the next one.  The
static buffer of `readline` is part of the state.

Two components record where bytes come from and are read by no step of the
program: `owner`, the connection the bytes in the static buffer were read from,
and `origin`, for each position of `line`, the connection its byte was read from.

## Main definitions

* `Conn` — one connection, with what its client sent and what was written to it.
* `Pc`, `Sys`, `Act`, `step` — the points of the program, the states, the actions
  and the transition function.
* `init` — the state in which `main` enters its loop.
-/

namespace TcpIp
namespace Select

open Readline

/-- `FD_SETSIZE`, the size of `client[]`. -/
def fdSetsize : ℕ := 1024

/-- A file descriptor. -/
abbrev Fd := ℕ

/-- The number of a connection; a connection keeps it when its descriptor is closed. -/
abbrev ConnId := ℕ

/-- A connection. -/
structure Conn where
  /-- The connection has been established. -/
  opened : Bool := false
  /-- The client has closed its side. -/
  fin : Bool := false
  /-- Bytes that have arrived and have not been read. -/
  rcvq : List UInt8 := []
  /-- Every byte the client has sent. -/
  sent : List UInt8 := []
  /-- Every byte the server has written. -/
  echoed : List UInt8 := []
  /-- For each of these, the connection it was read from. -/
  origins : List (Option ConnId) := []
  deriving DecidableEq, Repr, Inhabited

/-- The results `read` may give on a connection: any positive number of queued
bytes up to `len`, or `0` at the end of file. -/
def Conn.readOk (c : Conn) (len k : ℕ) : Bool :=
  if k = 0 then c.rcvq.isEmpty && c.fin else decide (k ≤ len ∧ k ≤ c.rcvq.length)

/-- Where the server is. -/
inductive Pc where
  /-- About to call `Select`. -/
  | select
  /-- The listening socket is readable: about to call `Accept`. -/
  | accept
  /-- At the head of the loop over `client[]`. -/
  | scan (i : ℕ)
  /-- In the loop of `readline`, about to get a byte. -/
  | reading (i : ℕ) (sockfd : Fd) (n ptr : ℕ)
  /-- At the head of the loop of `writen`, with `nleft` bytes to go from `ptr`. -/
  | writing (i : ℕ) (sockfd : Fd) (ptr nleft : ℕ)
  /-- Left through `err_sys` or `err_quit`. -/
  | exited
  deriving DecidableEq, Repr

/-- A state of the server and its connections. -/
structure Sys where
  pc : Pc
  listenfd : Fd
  maxfd : Fd
  maxi : ℤ
  /-- `client[]`, with `none` for `-1`. -/
  client : List (Option Fd)
  allset : List Fd
  rset : List Fd
  nready : ℤ
  /-- The buffer of `main`. -/
  line : List UInt8
  /-- The static variables of `readline`. -/
  rl : Rline
  /-- Connections established and not accepted yet. -/
  backlog : List ConnId
  conns : ConnId → Conn
  /-- The descriptors of accepted connections. -/
  fds : Fd → Option ConnId
  owner : Option ConnId
  origin : ℕ → Option ConnId

/-- One move. -/
inductive Act where
  /-- A client connects. -/
  | connect (c : ConnId)
  /-- A client sends. -/
  | send (c : ConnId) (bs : List UInt8)
  /-- A client closes its side. -/
  | finish (c : ConnId)
  /-- `select` reports these descriptors as readable. -/
  | select (ready : List Fd)
  /-- `select` fails. -/
  | selectFail (e : Errno)
  /-- `accept` returns this descriptor for the first waiting connection. -/
  | accept (connfd : Fd)
  /-- `accept` fails. -/
  | acceptFail (e : Errno)
  /-- `read` returns this many bytes, or fails. -/
  | read (res : Except Errno ℕ)
  /-- `write` takes this many bytes, or fails. -/
  | write (res : Except Errno ℕ)
  /-- The server goes on to its next point without a system call. -/
  | tick

namespace Sys

def setConn (s : Sys) (c : ConnId) (conn : Conn) : Sys :=
  { s with conns := Function.update s.conns c conn }

/-- `err_sys` and `err_quit`. -/
def exit (s : Sys) : Sys := { s with pc := .exited }

/-- `main` after `Accept` returned `connfd` for the connection `c`: the first free
entry of `client[]` is taken. -/
def accepted (s : Sys) (connfd : Fd) (c : ConnId) (backlog : List ConnId) : Sys :=
  let i := s.client.findIdx Option.isNone
  if i = fdSetsize then s.exit
  else
    { s with
      client := s.client.set i (some connfd)
      allset := connfd :: s.allset
      maxfd := max s.maxfd connfd
      maxi := max s.maxi i
      nready := s.nready - 1
      backlog := backlog
      fds := Function.update s.fds connfd (some c)
      pc := if s.nready - 1 ≤ 0 then .select else .scan 0 }

/-- `main` once `readline` has returned for `client[i]`: `Readline` exits on an
error, `0` closes the connection, and `Writen` is called with what was returned,
also when that is `0`. -/
def returned (s : Sys) (i : ℕ) (sockfd : Fd) (r : Ret) : Sys :=
  let s := { s with line := r.line, origin := Function.update s.origin r.ptr none }
  if r.rv < 0 then s.exit
  else if r.rv = 0 then
    { s with
      fds := Function.update s.fds sockfd none
      allset := s.allset.filter (· ≠ sockfd)
      client := s.client.set i none
      pc := .writing i sockfd 0 0 }
  else { s with pc := .writing i sockfd 0 r.rv.toNat }

/-- The rest of a round of the loop of `readline`, once `my_read` has returned. -/
def got (s : Sys) (i : ℕ) (sockfd : Fd) (n ptr : ℕ) (rc : Rc) : Sys :=
  match body eofCount n ptr s.line rc with
  | .inl r => { s with origin := Function.update s.origin ptr s.owner }.returned i sockfd r
  | .inr line =>
    let s := { s with line, origin := Function.update s.origin ptr s.owner }
    if n + 1 < maxLine then { s with pc := .reading i sockfd (n + 1) (ptr + 1) }
    else s.returned i sockfd ⟨n + 1, ptr + 1, line.set (ptr + 1) 0⟩

/-- The steps without a system call. -/
def tick (s : Sys) : Option Sys :=
  match s.pc with
  | .scan i =>
    if (i : ℤ) ≤ s.maxi then
      match s.client.getD i none with
      | none => some { s with pc := .scan (i + 1) }
      | some sockfd =>
        if sockfd ∈ s.rset then some { s with pc := .reading i sockfd 1 0 }
        else some { s with pc := .scan (i + 1) }
    else some { s with pc := .select }
  | .reading i sockfd n ptr =>
    -- `my_read` finds a byte in its buffer
    if h : 0 < s.rl.cnt then
      some ({ s with rl := (s.rl.next h).2 }.got i sockfd n ptr (s.rl.next h).1)
    else none
  | .writing i _ _ 0 =>
    let s := { s with nready := s.nready - 1 }
    some { s with pc := if s.nready ≤ 0 then .select else .scan (i + 1) }
  | _ => none

/-- The `read` of `my_read`, called when its buffer is empty. -/
def read (s : Sys) (res : Except Errno ℕ) : Option Sys :=
  match s.pc with
  | .reading i sockfd n ptr =>
    if 0 < s.rl.cnt then none
    else
      match res with
      | .error .eintr => some { s with rl := (s.rl.fill (.error .eintr)).2 }
      | .error e => some ({ s with rl := (s.rl.fill (.error e)).2 }.got i sockfd n ptr .error)
      | .ok k =>
        match s.fds sockfd with
        | none => none
        | some c =>
          if (s.conns c).readOk maxLine k then
            let conn := s.conns c
            let filled := s.rl.fill (.ok (conn.rcvq.take k))
            let s := s.setConn c { conn with rcvq := conn.rcvq.drop k }
            some ({ s with rl := filled.2, owner := some c }.got i sockfd n ptr filled.1)
          else none
  | _ => none

/-- The `write` of `writen`. -/
def write (s : Sys) (res : Except Errno ℕ) : Option Sys :=
  match s.pc with
  | .writing i sockfd ptr (nleft + 1) =>
    match res with
    | .error .eintr => some s
    | .error _ => some s.exit
    | .ok 0 => some s.exit
    | .ok (k + 1) =>
      match s.fds sockfd with
      | none => none
      | some c =>
        if k ≤ nleft then
          let conn := s.conns c
          let s := s.setConn c
            { conn with
              echoed := conn.echoed ++ (s.line.drop ptr).take (k + 1)
              origins := conn.origins ++ (List.range' ptr (k + 1)).map s.origin }
          some { s with pc := .writing i sockfd (ptr + (k + 1)) (nleft - k) }
        else none
  | _ => none

end Sys

/-- The transition function.  `select` may report any watched descriptors below
`maxfd + 1`, and `accept` may return any free descriptor that an `fd_set` can
hold (the limit on open descriptors sees to that; `FD_SET` is undefined beyond). -/
def step (s : Sys) : Act → Option Sys
  | .connect c =>
    if (s.conns c).opened then none
    else some { s.setConn c { s.conns c with opened := true } with backlog := s.backlog ++ [c] }
  | .send c bs =>
    let conn := s.conns c
    if conn.opened && !conn.fin then
      some (s.setConn c { conn with rcvq := conn.rcvq ++ bs, sent := conn.sent ++ bs })
    else none
  | .finish c =>
    if (s.conns c).opened then some (s.setConn c { s.conns c with fin := true }) else none
  | .select ready =>
    if s.pc = .select ∧ ready ≠ [] ∧ ready.Nodup ∧ ∀ fd ∈ ready, fd ∈ s.allset ∧ fd ≤ s.maxfd then
      some { s with
        rset := ready
        nready := ready.length
        pc := if s.listenfd ∈ ready then .accept else .scan 0 }
    else none
  | .selectFail _ => if s.pc = .select then some s.exit else none
  | .accept connfd =>
    match s.pc, s.backlog with
    | .accept, c :: backlog =>
      if s.fds connfd = none ∧ connfd ≠ s.listenfd ∧ connfd < fdSetsize then
        some (s.accepted connfd c backlog)
      else none
    | _, _ => none
  | .acceptFail e =>
    if s.pc = .accept then
      -- `Accept` calls `accept` again if the connection was aborted
      if e = .eproto ∨ e = .econnaborted then some s else some s.exit
    else none
  | .read res => s.read res
  | .write res => s.write res
  | .tick => s.tick

/-- The state in which `main` enters its loop.  The contents of `line` are
whatever the stack held. -/
def init (listenfd : Fd) (line : List UInt8) : Sys where
  pc := .select
  listenfd := listenfd
  maxfd := listenfd
  maxi := -1
  client := List.replicate fdSetsize none
  allset := [listenfd]
  rset := []
  nready := 0
  line := line
  rl := Rline.init
  backlog := []
  conns := fun _ => {}
  fds := fun _ => none
  owner := none
  origin := fun _ => none

end Select
end TcpIp
