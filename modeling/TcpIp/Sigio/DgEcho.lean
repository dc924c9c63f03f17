import TcpIp.Kernel
import TcpIp.Lib.Buffer
import TcpIp.Lib.Ring
import TcpIp.Lib.Run

/-!
# The signal-driven UDP echo server

In `sigio/dgecho01.c` the datagrams are received by the handler of `SIGIO`, which
reads until nothing is left and puts them into a circular buffer, and sent back by
the loop of `dg_echo`.  The two share `dg`, `iget`, `iput` and `nqueue`.  The loop has
the signal blocked when it tests and changes `nqueue`, and unblocked while it sends
and advances `iget`; what protects the datagram being sent is that `nqueue` still
counts it.

An action is one step of the loop or of the handler, the arrival of a datagram, or
the delivery of a signal, which is possible wherever the loop has not blocked it and
the handler is not running already.  While the handler runs the loop stands still.
`received` and `sent` record the datagrams.

## Main definitions

* `Sys`, `Act`, `step`, `init` — the system.
* `Queue` — the invariant.

## Main results

* `echo_queue` — the datagrams are sent back in the order in which they were received,
  and unchanged.
-/

namespace TcpIp
namespace Sigio

open Run Buffer

/-- `QSIZE`. -/
def qsize : ℕ := 8

/-- `MAXDG`. -/
def maxDg : ℕ := 4096

/-- A datagram with the address of the client, as bytes. -/
structure Dgram where
  data : List UInt8
  addr : List UInt8
  deriving DecidableEq, Repr

/-- An entry of `dg`: the two buffers and their lengths. -/
structure DG where
  data : List UInt8
  len : ℕ
  sa : List UInt8
  salen : ℕ
  deriving DecidableEq, Repr

/-- The datagram in an entry. -/
def DG.dgram (ptr : DG) : Dgram := ⟨ptr.data.take ptr.len, ptr.sa.take ptr.salen⟩

/-- The entry after `recvfrom` has stored a datagram there. -/
def DG.recvfrom (ptr : DG) (d : Dgram) : DG where
  data := writeAt ptr.data 0 d.data
  len := d.data.length
  sa := writeAt ptr.sa 0 d.addr
  salen := d.addr.length

@[simp] theorem DG.dgram_recvfrom (ptr : DG) (d : Dgram) : (ptr.recvfrom d).dgram = d := by
  simp [DG.dgram, DG.recvfrom]

/-! ### The program -/

/-- Where `dg_echo` is. -/
inductive MainPc where
  /-- The handler is installed; the socket still blocks. -/
  | setup
  /-- About to block the signal for the first time. -/
  | enter
  /-- About to test `nqueue == 0`. -/
  | test
  /-- In `sigsuspend`. -/
  | suspend
  /-- About to unblock the signal. -/
  | unblock
  /-- About to evaluate the arguments of `Sendto`. -/
  | send
  /-- In `Sendto`, for the entry `i` and these lengths. -/
  | sendto (i len salen : ℕ)
  /-- About to increment `iget`. -/
  | advance
  /-- About to test `iget >= QSIZE`. -/
  | wrap
  /-- About to block the signal. -/
  | block
  /-- About to decrement `nqueue`. -/
  | decrement
  deriving DecidableEq, Repr

/-- `SIGIO` is blocked by the loop. -/
def MainPc.blocked : MainPc → Bool
  | .test => true
  | .unblock => true
  | .decrement => true
  | _ => false

/-- Where `sig_io` is, with its count of datagrams. -/
inductive HandlerPc where
  /-- About to test `nqueue >= QSIZE`. -/
  | check (nread : ℕ)
  /-- In `recvfrom`. -/
  | recv (nread : ℕ)
  deriving DecidableEq, Repr

/-- The process and its socket. -/
structure Sys where
  /-- The size of a socket address. -/
  clilen : ℕ
  dg : ℕ → DG
  iget : ℕ
  iput : ℕ
  nqueue : ℤ
  cntread : ℕ → ℕ
  main : MainPc
  /-- The handler, while it runs. -/
  handler : Option HandlerPc
  /-- `FIONBIO` has been set. -/
  nonblocking : Bool
  /-- `err_quit` or `err_sys` has been called. -/
  exited : Bool
  /-- The datagrams waiting in the socket. -/
  sockq : List Dgram
  /-- The datagrams received by the handler. -/
  received : List Dgram
  /-- The datagrams sent by the loop. -/
  sent : List Dgram

inductive Act where
  /-- A datagram arrives. -/
  | arrive (d : Dgram)
  /-- `SIGIO` is delivered. -/
  | sigio
  /-- Another signal is delivered in `sigsuspend`. -/
  | signal
  /-- The next step of the loop. -/
  | main
  /-- `Sendto` returns, or exits. -/
  | sendto (ok : Bool)
  /-- The test of the handler. -/
  | check
  /-- `recvfrom` returns. -/
  | recvfrom (res : Except Errno Unit)

namespace Sys

/-- The steps of the loop that depend on nothing else. -/
def mainStep (s : Sys) : Option Sys :=
  match s.main with
  | .setup => some { s with nonblocking := true, main := .enter }
  | .enter => some { s with main := .test }
  | .test => some { s with main := if s.nqueue = 0 then .suspend else .unblock }
  | .unblock => some { s with main := .send }
  | .send => some { s with main := .sendto s.iget (s.dg s.iget).len (s.dg s.iget).salen }
  | .advance => some { s with iget := s.iget + 1, main := .wrap }
  | .wrap => some { s with iget := if qsize ≤ s.iget then 0 else s.iget, main := .block }
  | .block => some { s with main := .decrement }
  | .decrement => some { s with nqueue := s.nqueue - 1, main := .test }
  | _ => none

/-- The handler has stored a datagram in the entry `iput`. -/
def queued (s : Sys) (nread : ℕ) (d : Dgram) : Sys :=
  { s with
    dg := Function.update s.dg s.iput ((s.dg s.iput).recvfrom d)
    received := s.received ++ [d]
    nqueue := s.nqueue + 1
    iput := if qsize ≤ s.iput + 1 then 0 else s.iput + 1
    handler := some (.check (nread + 1)) }

/-- The handler returns; so does `sigsuspend`, if that is where the loop was. -/
def handled (s : Sys) (nread : ℕ) : Sys :=
  { s with
    cntread := Function.update s.cntread nread (s.cntread nread + 1)
    handler := none
    main := if s.main = .suspend then .test else s.main }

end Sys

/-- The transition function. -/
def step (s : Sys) : Act → Option Sys
  | .arrive d =>
    -- addresses have the size the protocol gives them
    if d.addr.length ≤ s.clilen then some { s with sockq := s.sockq ++ [d] } else none
  | .sigio =>
    if s.exited = false ∧ s.handler = none ∧ s.main.blocked = false then
      some { s with handler := some (.check 0) }
    else none
  | .signal =>
    if s.exited = false ∧ s.handler = none ∧ s.main = .suspend then some { s with main := .test }
    else none
  | .main => if s.exited = false ∧ s.handler = none then s.mainStep else none
  | .sendto ok =>
    if s.exited = false ∧ s.handler = none then
      match s.main with
      | .sendto i len salen =>
        if ok then
          some { s with
            sent := s.sent ++ [⟨(s.dg i).data.take len, (s.dg i).sa.take salen⟩]
            main := .advance }
        else some { s with exited := true }
      | _ => none
    else none
  | .check =>
    if s.exited = false then
      match s.handler with
      | some (.check nread) =>
        if qsize ≤ s.nqueue then some { s with exited := true }
        else
          some { s with
            dg := Function.update s.dg s.iput { s.dg s.iput with salen := s.clilen }
            handler := some (.recv nread) }
      | _ => none
    else none
  | .recvfrom res =>
    if s.exited = false then
      match s.handler, res, s.sockq with
      | some (.recv nread), .ok _, d :: sockq =>
        -- what does not fit into the buffer is lost
        some ({ s with sockq }.queued nread { d with data := d.data.take maxDg })
      | some (.recv nread), .error .eagain, [] =>
        if s.nonblocking then some (s.handled nread) else none
      | some (.recv _), .error .eagain, _ :: _ => none
      | some (.recv _), .error _, _ => some { s with exited := true }
      | _, _, _ => none
    else none

/-- What a step does, with what is known of the state before it. -/
inductive Trans (s : Sys) : Act → Sys → Prop
  | arrive {d : Dgram} (hlen : d.addr.length ≤ s.clilen) :
    Trans s (.arrive d) { s with sockq := s.sockq ++ [d] }
  | sigio (hhandler : s.handler = none) (hopen : s.main.blocked = false) :
    Trans s .sigio { s with handler := some (.check 0) }
  | signal (hhandler : s.handler = none) (hmain : s.main = .suspend) :
    Trans s .signal { s with main := .test }
  | main {s' : Sys} (hhandler : s.handler = none) (hs : s.mainStep = some s') : Trans s .main s'
  | sendto {i len salen : ℕ} (hhandler : s.handler = none) (hmain : s.main = .sendto i len salen) :
    Trans s (.sendto true) { s with
      sent := s.sent ++ [⟨(s.dg i).data.take len, (s.dg i).sa.take salen⟩]
      main := .advance }
  /-- `err_quit` or `err_sys` is called. -/
  | exit {a : Act} : Trans s a { s with exited := true }
  | check {nread : ℕ} (hhandler : s.handler = some (.check nread)) (hroom : ¬qsize ≤ s.nqueue) :
    Trans s .check { s with
      dg := Function.update s.dg s.iput { s.dg s.iput with salen := s.clilen }
      handler := some (.recv nread) }
  | recvfrom {nread : ℕ} {d : Dgram} {sockq : List Dgram}
      (hhandler : s.handler = some (.recv nread)) (hsockq : s.sockq = d :: sockq) (u : Unit) :
    Trans s (.recvfrom (.ok u)) ({ s with sockq }.queued nread { d with data := d.data.take maxDg })
  | handled {nread : ℕ} (hhandler : s.handler = some (.recv nread)) (hsockq : s.sockq = []) :
    Trans s (.recvfrom (.error .eagain)) (s.handled nread)

theorem trans_of_step {s s' : Sys} {a : Act} (hs : step s a = some s') : Trans s a s' := by
  cases a with
  | arrive d =>
    simp only [step, Option.ite_none_right_eq_some, Option.some.injEq] at hs
    obtain ⟨hlen, rfl⟩ := hs
    exact .arrive hlen
  | sigio =>
    simp only [step, Option.ite_none_right_eq_some, Option.some.injEq] at hs
    obtain ⟨⟨-, hhandler, hopen⟩, rfl⟩ := hs
    exact .sigio hhandler hopen
  | signal =>
    simp only [step, Option.ite_none_right_eq_some, Option.some.injEq] at hs
    obtain ⟨⟨-, hhandler, hmain⟩, rfl⟩ := hs
    exact .signal hhandler hmain
  | main =>
    simp only [step, Option.ite_none_right_eq_some] at hs
    exact .main hs.1.2 hs.2
  | sendto ok =>
    simp only [step, Option.ite_none_right_eq_some] at hs
    obtain ⟨⟨-, hhandler⟩, hs⟩ := hs
    split at hs
    · next hmain =>
      cases ok with
      | true =>
        cases hs
        exact .sendto hhandler hmain
      | false =>
        cases hs
        exact .exit
    · cases hs
  | check =>
    simp only [step, Option.ite_none_right_eq_some] at hs
    obtain ⟨-, hs⟩ := hs
    split at hs
    · next hhandler =>
      split at hs
      · cases hs
        exact .exit
      · next hroom =>
        cases hs
        exact .check hhandler hroom
    · cases hs
  | recvfrom res =>
    simp only [step, Option.ite_none_right_eq_some] at hs
    obtain ⟨-, hs⟩ := hs
    split at hs
    · next hhandler hsockq =>
      cases hs
      exact .recvfrom hhandler hsockq _
    · next hhandler hsockq =>
      split at hs
      · cases hs
        exact .handled hhandler hsockq
      · cases hs
    · cases hs
    · cases hs
      exact .exit
    · cases hs

/-- The state in which the handler has been installed.  The buffers hold anything. -/
def init (clilen : ℕ) (dg : ℕ → DG) : Sys where
  clilen := clilen
  dg := dg
  iget := 0
  iput := 0
  nqueue := 0
  cntread := fun _ => 0
  main := .setup
  handler := none
  nonblocking := false
  exited := false
  sockq := []
  received := []
  sent := []

/-! ### The queue -/

/-- One datagram has been sent that `nqueue` still counts. -/
def MainPc.lag : MainPc → ℕ
  | .advance => 1
  | .wrap => 1
  | .block => 1
  | .decrement => 1
  | _ => 0

/-- The value of `iget` when `nqueue` no longer counts the first `g` datagrams. -/
def MainPc.igetAt (g : ℕ) : MainPc → ℕ
  | .wrap => g % qsize + 1
  | .block => (g + 1) % qsize
  | .decrement => (g + 1) % qsize
  | _ => g % qsize

/-- The loop has found a datagram and not sent it yet. -/
def MainPc.found : MainPc → Bool
  | .unblock => true
  | .send => true
  | .sendto _ _ _ => true
  | _ => false

/-- The queue and its history; `g` is the number of datagrams taken off `nqueue`. -/
structure Queue (g : ℕ) (s : Sys) : Prop where
  sent_eq : s.sent = s.received.take (g + s.main.lag)
  sent_le : g + s.main.lag ≤ s.received.length
  nqueue_eq : s.nqueue = s.received.length - g
  room : s.received.length ≤ g + qsize
  iput_eq : s.iput = s.received.length % qsize
  iget_eq : s.iget = s.main.igetAt g
  holds : Ring.Holds qsize (fun i => (s.dg i).dgram) s.received g
  /-- The handler reads into a free entry. -/
  free : ∀ nread, s.handler = some (.recv nread) → s.received.length < g + qsize
  found : s.main.found = true → g < s.received.length
  /-- The arguments of `Sendto` are still those of the entry. -/
  sendto_eq : ∀ i len salen, s.main = .sendto i len salen →
    i = s.iget ∧ len = (s.dg i).len ∧ salen = (s.dg i).salen

theorem queue_init (clilen : ℕ) (dg : ℕ → DG) : Queue 0 (init clilen dg) where
  sent_eq := rfl
  sent_le := Nat.le_refl 0
  nqueue_eq := rfl
  room := Nat.zero_le _
  iput_eq := rfl
  iget_eq := rfl
  holds := Ring.holds_nil _ _ _
  free := by nofun
  found := by nofun
  sendto_eq := by nofun

section

variable {g : ℕ} {s : Sys}

/-- A step of the loop that leaves the queue alone, apart from moving `iget` on. -/
theorem Queue.goto (h : Queue g s) {old pc : MainPc} {iget : ℕ} {nonblocking : Bool}
    (hpc : s.main = old) (hlag : pc.lag = old.lag)
    (higet : s.iget = old.igetAt g → iget = pc.igetAt g)
    (hfound : pc.found = true → g < s.received.length)
    (hsendto : ∀ i len salen, pc = .sendto i len salen →
      i = iget ∧ len = (s.dg i).len ∧ salen = (s.dg i).salen) :
    Queue g { s with main := pc, iget, nonblocking } := by
  subst hpc
  exact { h with
    sent_eq := by rw [hlag]; exact h.sent_eq
    sent_le := by rw [hlag]; exact h.sent_le
    iget_eq := higet h.iget_eq
    found := hfound
    sendto_eq := hsendto }

/-- The loop sends the first datagram of the queue as it was received. -/
theorem Queue.send (h : Queue g s) {i len salen : ℕ} (hpc : s.main = .sendto i len salen) :
    Queue g { s with
      sent := s.sent ++ [⟨(s.dg i).data.take len, (s.dg i).sa.take salen⟩], main := .advance } := by
  obtain ⟨hi, hlen, hsalen⟩ := h.sendto_eq i len salen hpc
  have hfound : g < s.received.length := h.found (by rw [hpc]; rfl)
  have higet : s.iget = g % qsize := by rw [h.iget_eq, hpc]; rfl
  have hfirst : s.received[g]? = some (s.dg i).dgram := by
    rw [hi, higet]
    exact h.holds.get hfound
  have hsent : s.sent = s.received.take g := by
    have := h.sent_eq
    rwa [hpc] at this
  refine { h with
    sent_eq := ?_, sent_le := hfound, iget_eq := higet, found := by nofun, sendto_eq := by nofun }
  simp only [hsent, hlen, hsalen, MainPc.lag]
  exact (Ring.take_succ_of_getElem? hfirst).symm

/-- The two steps of `++iget >= QSIZE` come to the next index of the ring. -/
theorem igetAt_wrap (g : ℕ) :
    (if qsize ≤ g % qsize + 1 then 0 else g % qsize + 1) = (g + 1) % qsize := by
  have hlt : g % qsize < qsize := Nat.mod_lt g (by decide)
  rw [← Ring.next_eq_of_lt hlt]
  exact Ring.next_mod (by decide) g

/-- The loop takes the datagram it has sent off the queue. -/
theorem Queue.decrement (h : Queue g s) (hpc : s.main = .decrement) :
    Queue (g + 1) { s with nqueue := s.nqueue - 1, main := .test } := by
  have hle := h.sent_le
  have hroom := h.room
  have hnqueue := h.nqueue_eq
  rw [hpc, MainPc.lag] at hle
  refine { h with
    sent_eq := ?_, sent_le := hle, nqueue_eq := ?_, room := by simp only; omega, iget_eq := ?_,
    holds := h.holds.drop, free := ?_, found := by nofun, sendto_eq := by nofun }
  · have := h.sent_eq
    rwa [hpc] at this
  · push_cast
    omega
  · have := h.iget_eq
    rwa [hpc] at this
  · intro nread hrecv
    have := h.free nread hrecv
    simp only
    omega

theorem queue_mainStep {s' : Sys} (h : Queue g s) (hs : s.mainStep = some s') :
    ∃ g', Queue g' s' := by
  unfold Sys.mainStep at hs
  split at hs
  · next hpc =>
    cases hs
    exact ⟨g, h.goto hpc rfl id (by nofun) (by nofun)⟩
  · next hpc =>
    cases hs
    exact ⟨g, h.goto hpc rfl id (by nofun) (by nofun)⟩
  · next hpc =>
    cases hs
    refine ⟨g, h.goto hpc ?_ ?_ ?_ ?_⟩
    · split <;> rfl
    · intro higet
      split <;> exact higet
    · intro hfound
      -- the queue is not empty, or the loop would wait
      have hne : s.nqueue ≠ 0 := by
        intro hzero
        rw [if_pos hzero] at hfound
        cases hfound
      have hnqueue := h.nqueue_eq
      have hle := h.sent_le
      omega
    · intro i len salen hsendto
      split at hsendto <;> cases hsendto
  · next hpc =>
    cases hs
    have hfound := h.found (by rw [hpc]; rfl)
    exact ⟨g, h.goto hpc rfl id (fun _ => hfound) (by nofun)⟩
  · next hpc =>
    cases hs
    have hfound := h.found (by rw [hpc]; rfl)
    refine ⟨g, h.goto hpc rfl id (fun _ => hfound) ?_⟩
    intro i len salen hsendto
    cases hsendto
    exact ⟨rfl, rfl, rfl⟩
  · next hpc =>
    cases hs
    refine ⟨g, h.goto hpc rfl ?_ (by nofun) (by nofun)⟩
    intro higet
    rw [higet]
    rfl
  · next hpc =>
    cases hs
    refine ⟨g, h.goto hpc rfl ?_ (by nofun) (by nofun)⟩
    intro higet
    rw [higet]
    exact igetAt_wrap g
  · next hpc =>
    cases hs
    exact ⟨g, h.goto hpc rfl id (by nofun) (by nofun)⟩
  · next hpc =>
    cases hs
    exact ⟨g + 1, h.decrement hpc⟩
  · cases hs

/-! ### The handler -/

theorem dgram_update (dg : ℕ → DG) (i : ℕ) (ptr : DG) :
    (fun j => (Function.update dg i ptr j).dgram) =
      Function.update (fun j => (dg j).dgram) i ptr.dgram := by
  funext j
  rcases eq_or_ne j i with rfl | hne
  · simp
  · simp [Function.update_of_ne hne]

/-- The entry of a datagram the loop is sending is not the one the handler uses. -/
theorem Queue.iput_ne (h : Queue g s) (hfree : s.received.length < g + qsize)
    (hfound : s.main.found = true) : s.iget ≠ s.iput := by
  have higet : s.iget = g % qsize := by
    rw [h.iget_eq]
    cases hpc : s.main <;> simp_all [MainPc.found, MainPc.igetAt]
  rw [higet, h.iput_eq]
  exact (Ring.mod_ne_mod (h.found hfound) hfree).symm

/-- The arguments of `Sendto` survive what the handler does to its entry. -/
theorem Queue.sendto_update (h : Queue g s) (hfree : s.received.length < g + qsize) (ptr : DG) :
    ∀ i len salen, s.main = .sendto i len salen →
      i = s.iget ∧ len = (Function.update s.dg s.iput ptr i).len ∧
        salen = (Function.update s.dg s.iput ptr i).salen := by
  intro i len salen hpc
  obtain ⟨rfl, hlen, hsalen⟩ := h.sendto_eq i len salen hpc
  have hne := h.iput_ne hfree (by rw [hpc]; rfl)
  rw [Function.update_of_ne hne]
  exact ⟨rfl, hlen, hsalen⟩

/-- The handler finds room and prepares the entry. -/
theorem Queue.prepare (h : Queue g s) (hroom : ¬ (qsize : ℤ) ≤ s.nqueue) (nread : ℕ) :
    Queue g { s with
      dg := Function.update s.dg s.iput { s.dg s.iput with salen := s.clilen }
      handler := some (.recv nread) } := by
  have hfree : s.received.length < g + qsize := by
    have hnqueue := h.nqueue_eq
    omega
  refine { h with
    holds := ?_, free := fun _ _ => hfree, sendto_eq := h.sendto_update hfree _ }
  simp only [dgram_update]
  rw [h.iput_eq]
  exact h.holds.update hfree _

/-- The handler stores a datagram behind the last one. -/
theorem Queue.queued (h : Queue g s) (hfree : s.received.length < g + qsize) (nread : ℕ)
    (d : Dgram) : Queue g (s.queued nread d) := by
  have hle := h.sent_le
  have hlen : (s.received ++ [d]).length = s.received.length + 1 := by simp
  refine ⟨?_, ?_, ?_, ?_, ?_, h.iget_eq, ?_, by nofun, ?_, h.sendto_update hfree _⟩
  · simp only [Sys.queued]
    rw [List.take_append_of_le_length hle]
    exact h.sent_eq
  · simp only [Sys.queued, hlen]
    omega
  · simp only [Sys.queued, hlen, h.nqueue_eq]
    push_cast
    omega
  · simp only [Sys.queued, hlen]
    omega
  · simp only [Sys.queued, hlen, h.iput_eq]
    exact igetAt_wrap _
  · simp only [Sys.queued, dgram_update, DG.dgram_recvfrom]
    rw [h.iput_eq]
    exact h.holds.put hfree d
  · intro hfound
    have := h.found hfound
    simp only [Sys.queued, hlen]
    omega

/-- The handler returns. -/
theorem Queue.handled (h : Queue g s) (nread : ℕ) : Queue g (s.handled nread) := by
  have hleft : Queue g { s with
      cntread := Function.update s.cntread nread (s.cntread nread + 1), handler := none } :=
    { h with free := by nofun }
  unfold Sys.handled
  split
  · next hpc => exact hleft.goto hpc rfl id (by nofun) (by nofun)
  · exact hleft

end

/-- **Every step keeps the queue in order.** -/
theorem queue_step (s : Sys) (a : Act) (s' : Sys) (h : ∃ g, Queue g s) (hs : step s a = some s') :
    ∃ g, Queue g s' := by
  obtain ⟨g, h⟩ := h
  cases trans_of_step hs with
  | arrive => exact ⟨g, { h with }⟩
  | sigio => exact ⟨g, { h with free := by nofun }⟩
  | signal _ hmain => exact ⟨g, h.goto hmain rfl id (by nofun) (by nofun)⟩
  | main _ hs => exact queue_mainStep h hs
  | sendto _ hmain => exact ⟨g, h.send hmain⟩
  | exit => exact ⟨g, { h with }⟩
  | check _ hroom => exact ⟨g, h.prepare hroom _⟩
  | @recvfrom nread d sockq hhandler =>
    have hrest : Queue g { s with sockq } := { h with }
    exact ⟨g, hrest.queued (h.free nread hhandler) nread _⟩
  | handled => exact ⟨g, h.handled _⟩

theorem queue_of_reachable {clilen : ℕ} {dg : ℕ → DG} {s : Sys}
    (h : Reachable step (init clilen dg) s) : ∃ g, Queue g s :=
  exec_invariant queue_step ⟨0, queue_init clilen dg⟩ h

/-! ### The result -/

/-- The entry whose datagram is being sent. -/
def Sys.sending (s : Sys) : Option ℕ :=
  match s.main with
  | .send => some s.iget
  | .sendto i _ _ => some i
  | _ => none

theorem Queue.sending_eq {g : ℕ} {s : Sys} (h : Queue g s) {i : ℕ} (hi : s.sending = some i) :
    s.main.found = true ∧ i = s.iget := by
  unfold Sys.sending at hi
  split at hi
  · next hpc =>
    cases hi
    exact ⟨by rw [hpc]; rfl, rfl⟩
  · next j len salen hpc =>
    cases hi
    exact ⟨by rw [hpc]; rfl, (h.sendto_eq _ _ _ hpc).1⟩
  · cases hi

/-- A step changes no entry but the one the handler uses, and that one only if there
is room in the queue. -/
theorem dg_step {g : ℕ} {s s' : Sys} {a : Act} (h : Queue g s) (hs : step s a = some s') :
    s'.dg = s.dg ∨
      s.received.length < g + qsize ∧ ∃ ptr, s'.dg = Function.update s.dg s.iput ptr := by
  cases trans_of_step hs with
  | main _ hs =>
    unfold Sys.mainStep at hs
    split at hs <;> cases hs <;> exact .inl rfl
  | check _ hroom =>
    have hnqueue := h.nqueue_eq
    exact .inr ⟨by omega, _, rfl⟩
  | recvfrom hhandler => exact .inr ⟨h.free _ hhandler, _, rfl⟩
  | arrive | sigio | signal | sendto | exit | handled => exact .inl rfl

/-- **The queue of datagrams.**  In every reachable state: the datagrams sent back are
an initial part of those received, with their data and addresses; no step changes the
entry of the datagram that is being sent; `nqueue` is between `0` and `QSIZE`; and
wherever the loop tests `nqueue`, the two indices are `nqueue` apart. -/
theorem echo_queue (clilen : ℕ) (dg : ℕ → DG) (s : Sys) (h : Reachable step (init clilen dg) s) :
    s.sent <+: s.received ∧
    (∀ i, s.sending = some i → ∀ a s', step s a = some s' → s'.dg i = s.dg i) ∧
    (0 ≤ s.nqueue ∧ s.nqueue ≤ qsize) ∧
    (s.main = .test → (s.iput : ℤ) = (s.iget + s.nqueue) % qsize) := by
  obtain ⟨g, hq⟩ := queue_of_reachable h
  have hle := hq.sent_le
  have hroom := hq.room
  have hnqueue := hq.nqueue_eq
  refine ⟨?_, ?_, ?_, ?_⟩
  · rw [hq.sent_eq]
    exact List.take_prefix _ _
  · intro i hi a s' hs
    obtain ⟨hfound, rfl⟩ := hq.sending_eq hi
    obtain hdg | ⟨hfree, ptr, hdg⟩ := dg_step hq hs
    · rw [hdg]
    · rw [hdg, Function.update_of_ne (hq.iput_ne hfree hfound)]
  · omega
  · intro hpc
    have higet : s.iget = g % qsize := by rw [hq.iget_eq, hpc]; rfl
    rw [hq.iput_eq, higet, hnqueue]
    push_cast
    rw [Int.emod_add_emod]
    congr 1
    omega

/-- A datagram arrives while another one is being sent. -/
def overlapRun : List Act :=
  [.main, .main, .main, .arrive ⟨[104], [1]⟩, .sigio, .check, .recvfrom (.ok ()), .check,
   .recvfrom (.error .eagain), .main, .main, .main, .arrive ⟨[105], [2]⟩, .sigio, .check,
   .recvfrom (.ok ()), .check, .recvfrom (.error .eagain), .sendto true, .main, .main, .main, .main]

theorem echo_queue_overlapRun :
    ∃ s, exec step (init 1 fun _ => ⟨[], 0, [], 0⟩) overlapRun = some s ∧
      s.sent = [⟨[104], [1]⟩] ∧ s.main = .test ∧
      s.sent <+: s.received ∧ (s.iput : ℤ) = (s.iget + s.nqueue) % qsize := by
  obtain ⟨s, hs, hfacts⟩ := Option.map_eq_some_iff.mp
    (show (exec step (init 1 fun _ => ⟨[], 0, [], 0⟩) overlapRun).map (fun s => (s.sent, s.main)) =
      some ([⟨[104], [1]⟩], .test) by decide)
  simp only [Prod.mk.injEq] at hfacts
  have hqueue := echo_queue 1 _ s ⟨overlapRun, hs⟩
  exact ⟨s, hs, hfacts.1, hfacts.2, hqueue.1, hqueue.2.2.2 hfacts.2⟩

end Sigio
end TcpIp
