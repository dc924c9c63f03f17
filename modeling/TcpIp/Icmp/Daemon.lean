import TcpIp.Gai.Basic
import TcpIp.Icmp.Message
import TcpIp.Lib.Run
import TcpIp.Lib.Table
import TcpIp.Select.Server

/-!
# The ICMP daemon

`icmpd` reads the ICMP errors that come in on two raw sockets and passes them on to the
processes whose datagrams caused them.  A client connects through a Unix domain socket
and passes the descriptor of its UDP socket; the daemon notes the address family and the
local port of that socket in the entry `client[i]` of the connection, and compares them
with the source port of the datagram that an error quotes.

An entry is filled in by two handlers: `readable_listen` stores the descriptor of the
connection, `readable_conn` the family and the port.  When a client goes, only the
descriptor is taken out.

An action is one handler with what its system calls return, or a step of the loops of
`main`.  `Accept` calls `accept` again after an aborted connection; such calls are left
out.  Ports are kept as numbers, where the source has them in network byte order on both
sides of every comparison.  The last components of `Sys` record what has happened; no
handler reads them.

## Main definitions

* `readableV4`, `readableV6`, `Sys.readableListen`, `Sys.readableConn` — the handlers.
* `Sys`, `Act`, `step`, `init` — the daemon.
* `quotedPort` — the source port that a message quotes.
-/

namespace TcpIp.Icmp

open Bytes Run Table
open Gai (afInet afInet6)
open Select (Fd fdSetsize)

/-- The address family of a version. -/
def Ver.family : Ver → ℤ
  | .v4 => afInet
  | .v6 => afInet6

namespace Daemon

/-! ### Reading a message -/

/-- The error numbers the daemon translates into. -/
inductive Errno where
  | ehostunreach | emsgsize | econnrefused
  deriving DecidableEq, Repr

/-- A socket address of one of the two families. -/
structure Dest where
  family : ℤ
  addr : List UInt8
  port : ℕ
  deriving DecidableEq, Repr

/-- `struct icmpd_err`. -/
structure IcmpdErr where
  errno : Errno
  type : ℕ
  code : ℕ
  len : ℕ
  dest : Dest
  deriving DecidableEq, Repr

/-- What a handler makes of a message. -/
inductive Look where
  /-- `err_quit`. -/
  | quit
  /-- There is nothing to pass on. -/
  | skip
  /-- An error for the clients at the port `sport`. -/
  | pass (sport : ℕ) (err : IcmpdErr)
  deriving DecidableEq, Repr

def isError4 (type : ℕ) : Bool :=
  type == icmpUnreach || type == icmpTimxceed || type == icmpSourcequench

def isError6 (type : ℕ) : Bool :=
  type == icmp6DstUnreach || type == icmp6PacketTooBig || type == icmp6TimeExceeded

/-- The error number for a type and a code. -/
def errno4 (type code : ℕ) : Errno :=
  if type = icmpUnreach then
    if code = icmpUnreachPort then .econnrefused
    else if code = icmpUnreachNeedfrag then .emsgsize
    else .ehostunreach
  else .ehostunreach

@[inherit_doc errno4]
def errno6 (type code : ℕ) : Errno :=
  if type = icmp6PacketTooBig then .emsgsize
  else if type = icmp6DstUnreach ∧ code = icmp6DstUnreachNoport then .econnrefused
  else .ehostunreach

/-- `readable_v4` up to the loop over the clients: `n` bytes have been received in `buf`. -/
def readableV4 (buf : List UInt8) (n : ℕ) : Look :=
  let hlen1 := hlen buf 0
  let icmplen : ℤ := n - hlen1
  let type := icmpType buf hlen1
  let code := icmpCode buf hlen1
  if icmplen < 8 then .quit
  else if isError4 type then
    if icmplen < 8 + 20 + 8 then .quit
    else
      let hip := hlen1 + 8
      let hlen2 := hlen buf hip
      if ipP buf hip = ipprotoUdp then
        let udp := hlen1 + 8 + hlen2
        .pass (uhSport buf udp)
          { errno := errno4 type code, type, code, len := 16
            dest := ⟨afInet, ipDst buf hip, uhDport buf udp⟩ }
      else .skip
  else .skip

/-- `readable_v6` up to the loop over the clients. -/
def readableV6 (buf : List UInt8) (n : ℕ) : Look :=
  let icmp6len := n
  let type := icmpType buf 0
  let code := icmpCode buf 0
  if icmp6len < 8 then .quit
  else if isError6 type then
    if icmp6len < 8 + 8 then .quit
    else
      let hip6 := 8
      let hlen2 := sizeofIp6
      if ip6Nxt buf hip6 = ipprotoUdp then
        let udp := 8 + hlen2
        .pass (uhSport buf udp)
          { errno := errno6 type code, type, code, len := 28
            dest := ⟨afInet6, ip6Dst buf hip6, uhDport buf udp⟩ }
      else .skip
  else .skip

def look : Ver → List UInt8 → ℕ → Look
  | .v4 => readableV4
  | .v6 => readableV6

def isError : Ver → ℕ → Bool
  | .v4 => isError4
  | .v6 => isError6

/-- The message is an error that quotes a UDP datagram. -/
def Quotes (v : Ver) (msg : List UInt8) : Prop :=
  isError v (icmpType msg (v.icmp msg)) = true ∧ v.proto msg = ipprotoUdp

instance (v : Ver) (msg : List UInt8) : Decidable (Quotes v msg) :=
  inferInstanceAs (Decidable (_ ∧ _))

/-- The source port that a message quotes. -/
def quotedPort (v : Ver) (msg : List UInt8) : Option ℕ :=
  if Quotes v msg ∧ v.udp msg + 2 ≤ msg.length then some (uhSport msg (v.udp msg)) else none

/-! ### The daemon -/

/-- A connection, numbered in the order in which they are accepted. -/
abbrev ConnId := ℕ

/-- `struct client`, with `none` for the descriptor `-1`. -/
structure Client where
  connfd : Option Fd
  family : ℤ
  lport : ℤ
  deriving DecidableEq, Repr

/-- A descriptor that a client passes. -/
structure Desc where
  /-- Whether it is a UDP socket. -/
  udp : Bool
  /-- The family and the port that `getsockname` returns, if it succeeds. -/
  name : Option (ℤ × UInt16)
  /-- The port to which `bind` would bind it, if that succeeds. -/
  wild : Option UInt16
  deriving DecidableEq, Repr

/-- What `Read_fd` returns. -/
inductive Received where
  /-- The client has closed the connection. -/
  | eof
  /-- A byte without a descriptor. -/
  | data
  /-- A byte with a descriptor. -/
  | desc (d : Desc)
  deriving DecidableEq, Repr

/-- A socket that the daemon has accepted from a client, with the port it is bound to. -/
structure Passed where
  udp : Bool
  family : ℤ
  port : ℤ
  deriving DecidableEq, Repr

/-- An error that has been written to a client, with the message it was made of. -/
structure Delivery where
  conn : ConnId
  ver : Ver
  msg : List UInt8
  err : IcmpdErr
  deriving DecidableEq, Repr

/-- Where the daemon is. -/
inductive Pc where
  | select
  /-- In a handler. -/
  | listen | v4 | v6
  /-- At the head of the loop over `client[]`. -/
  | scan (i : ℕ)
  /-- In `readable_conn(i)`. -/
  | conn (i : ℕ)
  /-- Left through `err_sys` or `err_quit`. -/
  | exited
  /-- Behind an `FD_SET` outside of the set. -/
  | undefined
  deriving DecidableEq, Repr

/-- The daemon, its descriptors and what it has done. -/
structure Sys where
  pc : Pc
  fd4 : Fd
  fd6 : Fd
  listenfd : Fd
  maxi : ℤ
  maxfd : Fd
  nready : ℤ
  allset : Fd → Bool
  rset : Fd → Bool
  client : ℕ → Client
  /-- The connection behind a descriptor. -/
  conn : Fd → Option ConnId
  /-- The number of connections accepted. -/
  conns : ConnId
  /-- The sockets accepted from each connection. -/
  passed : ConnId → List Passed
  /-- The errors passed on. -/
  written : List Delivery

inductive Act where
  /-- `select` reports these descriptors. -/
  | select (ready : Fd → Bool)
  /-- `accept` returns this descriptor. -/
  | accept (connfd : Fd)
  /-- `readable_v4` or `readable_v6` receives `msg`; `rest` is what the buffer happens to
  hold behind it.  The writes to the clients succeed, or all before the `k`-th. -/
  | icmp (v : Ver) (msg rest : List UInt8) (fails : Option ℕ)
  /-- `readable_conn` receives something; its calls of `Write` and `Close` succeed, or
  one of them fails. -/
  | recv (r : Received) (ok : Bool)
  /-- The loop over `client[]` goes on. -/
  | tick
  /-- `select`, `accept`, `recvfrom` or `recvmsg` fails. -/
  | fail

def maxline : ℕ := 4096

/-- `sock_get_port`. -/
def sockGetPort (family : ℤ) (port : UInt16) : ℤ :=
  if family = afInet ∨ family = afInet6 then port.toNat else -1

/-- `sock_bind_wild`. -/
def sockBindWild (d : Desc) (family : ℤ) : ℤ :=
  if family = afInet ∨ family = afInet6 then
    match d.wild with
    | none => -1
    | some port => port.toNat
  else -1

namespace Sys

/-- `err_sys` and `err_quit`. -/
def exit (s : Sys) : Sys := { s with pc := .exited }

/-- A handler returns `--nready`: `main` goes back to `Select` or on to `pc`. -/
def ret (s : Sys) (pc : Pc) : Sys :=
  { s with nready := s.nready - 1, pc := if s.nready - 1 ≤ 0 then .select else pc }

/-- What `main` does behind `readable_v4`. -/
def behindV4 (s : Sys) : Pc := if s.rset s.fd6 then .v6 else .scan 0

/-- What `main` does behind `readable_listen`. -/
def behindListen (s : Sys) : Pc := if s.rset s.fd4 then .v4 else s.behindV4

/-- What `main` does behind `Select`. -/
def behindSelect (s : Sys) : Pc := if s.rset s.listenfd then .listen else s.behindListen

/-- `Select` has reported the descriptors of `rset`. -/
def selected (s : Sys) (rset : Fd → Bool) : Sys :=
  let s := { s with rset, nready := tally id rset fdSetsize }
  { s with pc := s.behindSelect }

/-- The entry that a new connection gets. -/
def free (s : Sys) : Option ℕ := first (fun c => c.connfd.isNone) s.client fdSetsize

/-- The connection that has just been accepted at `connfd` gets the entry `i`. -/
def enter (s : Sys) (i : ℕ) (connfd : Fd) : Sys :=
  { s with
    client := Function.update s.client i { s.client i with connfd := some connfd }
    conn := Function.update s.conn connfd (some s.conns)
    conns := s.conns + 1 }

/-- `readable_listen` after `Accept` has returned `connfd`. -/
def readableListen (s : Sys) (connfd : Fd) : Sys :=
  match s.free with
  | none => { s with conns := s.conns + 1 }.ret s.behindListen
  | some i =>
    if fdSetsize ≤ connfd then { s.enter i connfd with pc := .undefined }
    else
      { s.enter i connfd with
        allset := Function.update s.allset connfd true
        maxfd := max s.maxfd connfd
        maxi := max s.maxi i }.ret s.behindListen

/-- The connections to which an error for `sport` is written. -/
def targets (s : Sys) (family : ℤ) (sport : ℕ) : List ConnId :=
  (List.range (s.maxi + 1).toNat).filterMap fun i =>
    if (s.client i).family = family ∧ (s.client i).lport = sport then
      (s.client i).connfd.bind s.conn
    else none

/-- `readable_v4` and `readable_v6` after `Recvfrom`. -/
def readable (s : Sys) (v : Ver) (msg rest : List UInt8) (fails : Option ℕ) (pc : Pc) : Sys :=
  match look v (msg ++ rest) msg.length with
  | .quit => s.exit
  | .skip => s.ret pc
  | .pass sport err =>
    let sent := (s.targets v.family sport).map fun c => ⟨c, v, msg, err⟩
    match fails with
    | none => { s with written := s.written ++ sent }.ret pc
    | some k => { s with written := s.written ++ sent.take k }.exit

/-- `clientdone` of `readable_conn`. -/
def clientdone (s : Sys) (i : ℕ) (unixfd : Fd) : Sys :=
  { s with
    conn := Function.update s.conn unixfd none
    allset := Function.update s.allset unixfd false
    client := Function.update s.client i { s.client i with connfd := none } }

/-- The family and the port are stored in the entry `i`. -/
def note (s : Sys) (i : ℕ) (family lport : ℤ) : Sys :=
  { s with client := Function.update s.client i { s.client i with family, lport } }

/-- A socket has been accepted from the connection at `unixfd`. -/
def accepted (s : Sys) (unixfd : Fd) (p : Passed) : Sys :=
  match s.conn unixfd with
  | none => s
  | some c => { s with passed := Function.update s.passed c (p :: s.passed c) }

/-- The middle of `readable_conn`: a descriptor has been received.  The result says
whether it is accepted. -/
def register (s : Sys) (i : ℕ) (unixfd : Fd) (d : Desc) : Sys × Bool :=
  match d.name with
  | none => (s, false)
  | some (family, port) =>
    let lport := sockGetPort family port
    if lport = 0 then
      let lport := sockBindWild d family
      if lport ≤ 0 then (s.note i family lport, false)
      else ((s.note i family lport).accepted unixfd ⟨d.udp, family, lport⟩, true)
    else ((s.note i family lport).accepted unixfd ⟨d.udp, family, lport⟩, true)

/-- `readable_conn` up to its return. -/
def handle (s : Sys) (i : ℕ) (unixfd : Fd) : Received → Sys
  | .eof => s.clientdone i unixfd
  | .data => s.clientdone i unixfd
  | .desc d =>
    match s.register i unixfd d with
    | (s, true) => s
    | (s, false) => s.clientdone i unixfd

/-- `readable_conn` after `Read_fd`. -/
def readableConn (s : Sys) (i : ℕ) (unixfd : Fd) (r : Received) (ok : Bool) : Sys :=
  if ok then (s.handle i unixfd r).ret (.scan (i + 1)) else (s.handle i unixfd r).exit

/-- The loop over `client[]`. -/
def tick (s : Sys) (i : ℕ) : Sys :=
  if (i : ℤ) ≤ s.maxi then
    match (s.client i).connfd with
    | none => { s with pc := .scan (i + 1) }
    | some sockfd => { s with pc := if s.rset sockfd then .conn i else .scan (i + 1) }
  else { s with pc := .select }

end Sys

/-- Whether the daemon is in a system call that ends it when it fails. -/
def Pc.calls : Pc → Bool
  | .select | .listen | .v4 | .v6 | .conn _ => true
  | _ => false

/-- The transition function.  `select` may report any of the watched descriptors up to
`maxfd`, and `accept` may return any descriptor that is not in use. -/
def step (s : Sys) : Act → Option Sys
  | .select ready =>
    if s.pc = .select ∧ (∀ fd ≤ s.maxfd, ready fd = true → s.allset fd = true) ∧
        ∃ fd ≤ s.maxfd, ready fd = true then
      some (s.selected fun fd => decide (fd ≤ s.maxfd) && ready fd)
    else none
  | .accept connfd =>
    if s.pc = .listen ∧ s.conn connfd = none ∧ connfd ∉ [s.fd4, s.fd6, s.listenfd] then
      some (s.readableListen connfd)
    else none
  | .icmp v msg rest fails =>
    if msg.length ≤ maxline then
      match v with
      | .v4 => if s.pc = .v4 then some (s.readable v msg rest fails s.behindV4) else none
      | .v6 => if s.pc = .v6 then some (s.readable v msg rest fails (.scan 0)) else none
    else none
  | .recv r ok =>
    match s.pc with
    | .conn i =>
      match (s.client i).connfd with
      | some unixfd => some (s.readableConn i unixfd r ok)
      | none => none
    | _ => none
  | .tick =>
    match s.pc with
    | .scan i => some (s.tick i)
    | _ => none
  | .fail => if s.pc.calls then some s.exit else none

/-- What a step does. -/
inductive Next (s : Sys) : Act → Sys → Prop where
  | selected {ready} :
      Next s (.select ready) (s.selected fun fd => decide (fd ≤ s.maxfd) && ready fd)
  | accepted {connfd} (hnew : s.conn connfd = none) :
      Next s (.accept connfd) (s.readableListen connfd)
  | examined {v msg rest fails pc} (hpc : pc = s.behindV4 ∨ pc = .scan 0) :
      Next s (.icmp v msg rest fails) (s.readable v msg rest fails pc)
  | received {i unixfd r ok} (hi : (s.client i).connfd = some unixfd) :
      Next s (.recv r ok) (s.readableConn i unixfd r ok)
  | tick {i} : Next s .tick (s.tick i)
  | failed : Next s .fail s.exit

/-- **There are no other steps.** -/
theorem next_of_step {s s' : Sys} {a : Act} (hs : step s a = some s') : Next s a s' := by
  cases a with
  | select ready =>
    simp only [step, Option.ite_none_right_eq_some, Option.some.injEq] at hs
    obtain ⟨-, rfl⟩ := hs
    exact .selected
  | accept connfd =>
    simp only [step, Option.ite_none_right_eq_some, Option.some.injEq] at hs
    obtain ⟨⟨-, hnew, -⟩, rfl⟩ := hs
    exact .accepted hnew
  | icmp v msg rest fails =>
    simp only [step, Option.ite_none_right_eq_some] at hs
    obtain ⟨-, hs⟩ := hs
    cases v with
    | v4 =>
      simp only [Option.ite_none_right_eq_some, Option.some.injEq] at hs
      exact hs.2 ▸ .examined (.inl rfl)
    | v6 =>
      simp only [Option.ite_none_right_eq_some, Option.some.injEq] at hs
      exact hs.2 ▸ .examined (.inr rfl)
  | recv r ok =>
    simp only [step] at hs
    split at hs
    · split at hs
      · next hi =>
        rw [Option.some.injEq] at hs
        exact hs ▸ .received hi
      · cases hs
    · cases hs
  | tick =>
    simp only [step] at hs
    split at hs
    · rw [Option.some.injEq] at hs
      exact hs ▸ .tick
    · cases hs
  | fail =>
    simp only [step, Option.ite_none_right_eq_some, Option.some.injEq] at hs
    obtain ⟨-, rfl⟩ := hs
    exact .failed

/-- The daemon as it enters its loop. -/
def init (fd4 fd6 listenfd : Fd) : Sys where
  pc := if max (max fd4 fd6) listenfd < fdSetsize then .select else .undefined
  fd4 := fd4
  fd6 := fd6
  listenfd := listenfd
  maxi := -1
  maxfd := max (max fd4 fd6) listenfd
  nready := 0
  allset := fun fd => fd == fd4 || fd == fd6 || fd == listenfd
  rset := fun _ => false
  client := fun _ => ⟨none, 0, 0⟩
  conn := fun _ => none
  conns := 0
  passed := fun _ => []
  written := []

end Daemon

end TcpIp.Icmp
