import TcpIp.Sock.LoopTcp

/-!
# The loop of `sock` over UDP

`cliopen` stores the address of the server in the variable `servaddr` of the program.
`loop_udp` has a variable of that name of its own.  A client that has not connected its socket
sends to the address in the latter, which nothing sets before the first datagram has been
received; `recvfrom` then stores the sender's address in it.

## Main definitions

* `cliopen` — the address that the command line stands for.
* `State`, `Act`, `step` — the loop, for a server and for both kinds of client.
* `Aimed` — at every line that is sent, the last datagram was the server's.

## Main results

* `sends_to_server_iff` — when everything is sent to the server.
* `aimed_of_server` — an execution in which it is.
-/

namespace TcpIp.Sock

open Run

/-- `AF_INET` -/
def afInet : UInt16 := 2

/-- `struct sockaddr_in` -/
structure SockaddrIn where
  family : UInt16
  port : UInt16
  addr : UInt32
  deriving DecidableEq, Repr

/-- What the library makes of the command line. -/
structure Args where
  /-- `atoi(port)` -/
  port : ℤ
  /-- `getservbyname(port, protocol)` -/
  service : Option UInt16
  /-- `inet_aton(host, &inaddr)` -/
  dotted : Option UInt32
  /-- `gethostbyname(host)` -/
  host : Option UInt32
  deriving DecidableEq, Repr

/-- The address that `cliopen` stores in the variable `servaddr` of the program; `none` if it
leaves through `err_quit`. -/
def cliopen (args : Args) : Option SockaddrIn :=
  let port := if args.port = 0 then args.service else some (UInt16.ofInt args.port)
  port.bind fun port =>
    match args.dotted with
    | some addr => some ⟨afInet, port, addr⟩
    | none => args.host.map fun addr => ⟨afInet, port, addr⟩

namespace LoopUdp

/-- The options that the loop reads. -/
structure UdpOpts extends Opts where
  server : Bool := false
  connectudp : Bool := true

/-- A datagram handed to the kernel: with `sendto`, or with `write` on a connected socket. -/
structure Sent where
  dest : Option SockaddrIn
  data : List UInt8
  deriving DecidableEq, Repr

structure State extends Stdio where
  /-- The variable `servaddr` of the program. -/
  global : SockaddrIn
  /-- The variable `servaddr` of `loop_udp`. -/
  servaddr : SockaddrIn
  /-- The variable `cliaddr` of `loop_udp`. -/
  cliaddr : SockaddrIn
  sends : List Sent
  deriving DecidableEq, Repr

/-- A turn of one half of the loop body, with what the calls in it return. -/
inductive Act where
  /-- `read` finds a block on the standard input; `ok` if `sendto` or `write` sends it. -/
  | line (block : List UInt8) (ok : Bool)
  /-- `read` finds the end of the standard input; `ok` if a `shutdown` does not fail. -/
  | stdinEof (ok : Bool)
  /-- `recvmsg` or `recvfrom` finds a datagram from `src`; `ok` if `writen` does not fail. -/
  | datagram (src : SockaddrIn) (block : List UInt8) (ok : Bool)
  /-- `recv` finds a datagram on a connected socket, after it has found `peeked` with `MSG_PEEK`
  if that is asked for. -/
  | block (peeked block : List UInt8) (ok : Bool × Bool)
  /-- `recv` finds an empty datagram on a connected socket. -/
  | empty
  /-- `select`, `read` or one of the calls that receive fails. -/
  | fail
  deriving DecidableEq, Repr

/-- The state when the loop is entered after `cliopen`.  The stack holds something. -/
def start (args : Args) (servaddr cliaddr : SockaddrIn) (wbuf : List UInt8) : Option State :=
  (cliopen args).map fun server => ⟨Stdio.start wbuf, server, servaddr, cliaddr, []⟩

section Loop

variable (o : UdpOpts)

/-- A block of the standard input. -/
def State.send (s : State) (block : List UInt8) (ok : Bool) : State :=
  match convert o.crlf (crlfAdd o.writelen block) s.wbuf block with
  | (none, wbuf) => { s with wbuf, status := .exited }
  | (some bs, wbuf) =>
    { s with
      wbuf
      sends := s.sends ++ [⟨if o.connectudp then none else some s.servaddr, bs⟩]
      status := if ok then .running else .exited }

/-- `loop_udp`. -/
def step (s : State) : Act → Option State
  | .line block ok =>
    if s.status = .running ∧ s.stdineof = false ∧ 0 < block.length ∧ block.length ≤ o.readlen then
      some (s.send o block ok)
    else none
  | .stdinEof ok =>
    if s.status = .running ∧ s.stdineof = false then
      some { s with toStdio := s.toStdio.stdinEof o.toOpts ok }
    else none
  | .datagram src block ok =>
    if s.status = .running ∧ block.length ≤ o.readlen then
      if o.server then some { s with toStdio := s.toStdio.print o.toOpts block ok, cliaddr := src }
      else if o.connectudp then none
      else some { s with toStdio := s.toStdio.print o.toOpts block ok, servaddr := src }
    else none
  | .block peeked block ok =>
    if s.status = .running ∧ o.server = false ∧ o.connectudp = true ∧ 0 < block.length ∧
        block.length ≤ o.readlen ∧ (o.msgpeek = true → peeked = block) then
      -- the label `oncemore`
      let io := if o.msgpeek then s.toStdio.print o.toOpts peeked ok.1 else s.toStdio
      if io.status = .running then some { s with toStdio := io.print o.toOpts block ok.2 }
      else some { s with toStdio := io }
    else none
  | .empty =>
    if s.status = .running ∧ o.server = false ∧ o.connectudp = true then
      some { s with status := .closed }
    else none
  | .fail => if s.status = .running then some { s with status := .exited } else none

/-- A block of the standard input is sent, unless the conversion gives up on it. -/
def Sends (block : List UInt8) : Prop := o.crlf = true → (crlfAdd o.writelen block).ret ≠ none

/-- At every block that is sent, the last datagram came from `server`; before the first one, the
stack holds its address. -/
def Aimed (server : SockaddrIn) : SockaddrIn → List Act → Prop
  | _, [] => True
  | last, .line block _ :: as => (Sends o block → last = server) ∧ Aimed server last as
  | _, .datagram src _ _ :: as => Aimed server src as
  | last, _ :: as => Aimed server last as

end Loop

/-! ### An unconnected client -/

section Client

variable {o : UdpOpts} {s s' s₀ : State} {server : SockaddrIn}

/-- What a step of a client that has not connected its socket does. -/
inductive Next (o : UdpOpts) (s : State) : Act → State → Prop where
  | send {b k bs wbuf status} (hsends : Sends o b) :
      Next o s (.line b k)
        { s with wbuf, status, sends := s.sends ++ [⟨some s.servaddr, bs⟩] }
  | quit {b k wbuf} (hquits : ¬ Sends o b) :
      Next o s (.line b k) { s with wbuf, status := .exited }
  | datagram {src b k} :
      Next o s (.datagram src b k)
        { s with toStdio := s.toStdio.print o.toOpts b k, servaddr := src }
  | stdinEof {k io} : Next o s (.stdinEof k) { s with toStdio := io }
  | fail : Next o s .fail { s with status := .exited }

/-- **There are no other steps.** -/
theorem next_of_step (hserver : o.server = false) (hconnect : o.connectudp = false) {a : Act}
    (hs : step o s a = some s') : Next o s a s' := by
  cases a with
  | line b k =>
    simp only [step] at hs
    split at hs <;> cases hs
    unfold State.send
    rcases hconv : convert o.crlf (crlfAdd o.writelen b) s.wbuf b with ⟨_ | bs, wbuf⟩
    · -- only the conversion can have given up
      refine .quit fun hsends => ?_
      have hnone : (convert o.crlf (crlfAdd o.writelen b) s.wbuf b).1 = none := by rw [hconv]
      cases hcrlf : o.crlf with
      | true =>
        rw [hcrlf] at hnone
        exact hsends hcrlf (convert_fst_eq_none.mp hnone)
      | false => simp [hcrlf, convert] at hnone
    · simp only [hconnect]
      exact .send (convert_ne_none hconv)
  | stdinEof k =>
    simp only [step] at hs
    split at hs <;> cases hs
    exact .stdinEof
  | datagram src b k =>
    simp only [step, hserver, hconnect] at hs
    split at hs <;> cases hs
    exact .datagram
  | block p b k => simp [step, hconnect] at hs
  | empty => simp [step, hconnect] at hs
  | fail =>
    simp only [step] at hs
    split at hs <;> cases hs
    exact .fail

/-- What has been sent has been sent to `server`. -/
def Hits (server : SockaddrIn) (s : State) : Prop := ∀ m ∈ s.sends, m.dest = some server

theorem hits_append {m : Sent} {l : List Sent} :
    (∀ x ∈ l ++ [m], x.dest = some server) ↔
      (∀ x ∈ l, x.dest = some server) ∧ m.dest = some server := by
  simp [or_imp, forall_and]

/-- A run from any state: the local variable is the address of the last datagram. -/
theorem hits_iff_aimed (hserver : o.server = false) (hconnect : o.connectudp = false) :
    ∀ (run : List Act) (s s' : State), exec (step o) s run = some s' →
      (Hits server s' ↔ Hits server s ∧ Aimed o server s.servaddr run) := by
  intro run
  induction run with
  | nil =>
    intro s s' hexec
    rw [exec_nil, Option.some.injEq] at hexec
    subst hexec
    simp [Aimed]
  | cons a run ih =>
    intro s s' hexec
    obtain ⟨t, ht, htail⟩ := exec_cons_eq_some.mp hexec
    rw [ih t s' htail]
    cases next_of_step hserver hconnect ht with
    | send hsends =>
      simp only [Hits, hits_append, Aimed, Option.some.injEq]
      constructor
      · rintro ⟨⟨hall, hlast⟩, hrest⟩
        exact ⟨hall, fun _ => hlast, hrest⟩
      · rintro ⟨hall, hlast, hrest⟩
        exact ⟨⟨hall, hlast hsends⟩, hrest⟩
    | quit hquits =>
      simp only [Hits, Aimed]
      constructor
      · rintro ⟨hall, hrest⟩
        exact ⟨hall, fun hsends => absurd hsends hquits, hrest⟩
      · rintro ⟨hall, -, hrest⟩
        exact ⟨hall, hrest⟩
    | datagram => rfl
    | stdinEof => rfl
    | fail => rfl

/-- **When a client that has not connected its socket talks to the host it was given.**  Everything
it sends goes to the address that `cliopen` found exactly when, at every block it sends, the
last datagram came from there, or none has come and the stack happens to hold that address. -/
theorem sends_to_server_iff (hserver : o.server = false) (hconnect : o.connectudp = false)
    {args : Args} {servaddr cliaddr : SockaddrIn} {wbuf : List UInt8}
    (hstart : start args servaddr cliaddr wbuf = some s₀) {run : List Act}
    (hexec : exec (step o) s₀ run = some s) :
    (∀ m ∈ s.sends, m.dest = some s₀.global) ↔ Aimed o s₀.global servaddr run := by
  obtain ⟨server, -, rfl⟩ := Option.map_eq_some_iff.mp hstart
  have hiff := @hits_iff_aimed o server hserver hconnect run _ s hexec
  have hnone : Hits server ⟨Stdio.start wbuf, server, servaddr, cliaddr, []⟩ := by simp [Hits]
  exact hiff.trans (and_iff_right hnone)

/-- If the stack holds the address of the server and all datagrams come from there, all is
well. -/
theorem aimed_of_server : ∀ (run : List Act),
    (∀ a ∈ run, ∀ src b k, a = .datagram src b k → src = server) → Aimed o server server run := by
  intro run
  induction run with
  | nil => intro _; trivial
  | cons a run ih =>
    intro h
    obtain ⟨ha, hrun⟩ := List.forall_mem_cons.mp h
    have hrest := ih hrun
    cases a with
    | line b k => exact ⟨fun _ => rfl, hrest⟩
    | datagram src b k =>
      obtain rfl := ha src b k rfl
      exact hrest
    | stdinEof => exact hrest
    | block => exact hrest
    | empty => exact hrest
    | fail => exact hrest

end Client

/-! ### A run -/

/-- The command line names port 7 of the host 10.0.0.1. -/
def echoArgs : Args := ⟨7, none, some 0x0a000001, none⟩

/-- The address it stands for. -/
def echoServer : SockaddrIn := ⟨afInet, 7, 0x0a000001⟩

/-- Some other address. -/
def stranger : SockaddrIn := ⟨afInet, 53, 0x0a000063⟩

def unconnected : UdpOpts := { connectudp := false }

/-- Two lines; between them a datagram comes from the server. -/
def echoRun : List Act := [.line [97] true, .datagram echoServer [97] true, .line [98] true]

theorem sends_to_server_iff_echoRun :
    ∃ s, exec (step unconnected) ⟨Stdio.start [], echoServer, echoServer, stranger, []⟩ echoRun =
        some s ∧ s.sends.length = 2 ∧ ∀ m ∈ s.sends, m.dest = some echoServer :=
  have ⟨s, hs, hlen⟩ := Option.map_eq_some_iff.mp
    (show (exec (step unconnected) ⟨Stdio.start [], echoServer, echoServer, stranger, []⟩
      echoRun).map (fun s => s.sends.length) = some 2 by decide)
  have haimed : Aimed unconnected echoServer echoServer echoRun :=
    aimed_of_server echoRun (by simp [echoRun])
  ⟨s, hs, hlen, (@sends_to_server_iff unconnected s _ rfl rfl echoArgs echoServer stranger [] rfl
    echoRun hs).mpr haimed⟩

/-- The first line goes to whatever the stack holds, and a datagram from somewhere else diverts the
second one. -/
theorem sends_elsewhere :
    cliopen echoArgs = some echoServer ∧
      (exec (step unconnected) ⟨Stdio.start [], echoServer, ⟨0, 0, 0⟩, ⟨0, 0, 0⟩, []⟩
        [.line [97] true, .datagram stranger [120] true, .line [98] true]).map State.sends =
      some [⟨some ⟨0, 0, 0⟩, [97]⟩, ⟨some stranger, [98]⟩] := by
  decide

end LoopUdp

end TcpIp.Sock
