import TcpIp.Lib.Buffer
import TcpIp.Lib.Run
import TcpIp.Rtt.Basic

/-!
# Reliable requests over an unreliable network

`dg_send_recv` sends a datagram with a header in front, and sends it again until there
is an answer with the same sequence number or it gives up.  The timer is a signal whose
handler jumps back into the function, from wherever it is.  The answer comes from the
echo server of `rtt/dg_echo.c`.

The client makes one call after the other.  The network keeps everything: any datagram
sent may get to the server at any time and any number of times, and so may any answer of
the server to the client.  What is never delivered is lost.  The signal may arrive at
any point of a call up to `alarm(0)`.  Before the first `sigsetjmp` of the call it makes
the handler jump to a frame that is gone; the program has no defined behaviour from
there on.  A call of the socket functions that fails ends the process, and no step
stands for it.

The header that is received is kept in memory, so that a datagram overwrites as much of
it as it is long.  For each datagram sent we record by which call and when its timestamp
was taken; for each call that has returned, what it returned and from which datagram.

## Main definitions

* `Sys`, `Act`, `step`, `init` — client, server and network.
* `Return.Answered` — a call has been answered.
* `Inv` — the invariant.

## Main results

* `answers_current` — what a call returns is the answer to a datagram it has sent.
* `samples_exact` — the round-trip time measured is that of the datagram answered.
-/

namespace TcpIp
namespace Rtt

open Run Buffer

/-- `MAXLINE`. -/
def maxLine : ℕ := 4096

/-- Where `dg_send_recv` is. -/
inductive Pc where
  /-- Not called. -/
  | idle
  /-- About to take the timestamp. -/
  | sendagain
  | sendmsg
  /-- About to start the timer. -/
  | alarm
  | sigsetjmp
  | recvmsg
  /-- About to test the answer, of `n` bytes. -/
  | test (n : ℕ)
  /-- About to stop the timer. -/
  | stop (n : ℕ)
  /-- The timer is stopped. -/
  | stopped (n : ℕ)
  /-- The handler has jumped back. -/
  | timeout
  /-- The handler has jumped to a frame that is gone. -/
  | undefined
  deriving DecidableEq, Repr

/-- The signal may arrive. -/
def Pc.interruptible : Pc → Bool
  | .idle => false
  | .stopped _ => false
  | .undefined => false
  | _ => true

/-- A datagram sent by the client. -/
structure Sent where
  /-- The number of the call, from `1` on. -/
  call : ℕ
  /-- The `rtt_base` at the time. -/
  base : UInt32
  /-- The time at which the timestamp was taken. -/
  stamp : ℕ
  bytes : List UInt8
  deriving DecidableEq, Repr

/-- What follows the header. -/
def Sent.payload (e : Sent) : List UInt8 := e.bytes.drop hdrLen

/-- A datagram sent by the server. -/
structure Reply where
  /-- The number of the datagram it is the answer to. -/
  origin : ℕ
  bytes : List UInt8
  deriving DecidableEq, Repr

/-- A call that has returned a length. -/
structure Return where
  call : ℕ
  outbuff : List UInt8
  inbytes : ℕ
  n : ℕ
  /-- The first `n` bytes of `inbuff`. -/
  bytes : List UInt8
  /-- The value passed to `rtt_stop`. -/
  sample : UInt32
  /-- The `rtt_base` at the time. -/
  base : UInt32
  /-- The time at which it was calculated. -/
  time : ℕ
  /-- The number of the datagram whose answer was accepted. -/
  origin : ℕ
  deriving DecidableEq, Repr

structure Sys where
  rttinfo : RttInfo
  rttinit : Bool
  sendhdr : Hdr
  /-- The memory of `recvhdr`. -/
  recvhdr : List UInt8
  /-- The call that has set `jmpbuf`. -/
  jmpbuf : Option ℕ
  outbuff : List UInt8
  inbuff : List UInt8
  inbytes : ℕ
  pc : Pc
  /-- The seconds the timer was last set to. -/
  timer : ℤ
  /-- The number of calls made. -/
  call : ℕ
  /-- The time at which `sendhdr.ts` was taken. -/
  stamp : ℕ
  /-- The number of the datagram whose answer was received last. -/
  origin : ℕ
  /-- The clock, in microseconds. -/
  now : ℕ
  sent : List Sent
  replies : List Reply
  returns : List Return

inductive Act where
  /-- `dg_send_recv` is called. -/
  | call (outbuff inbuff : List UInt8) (inbytes : ℕ)
  /-- The next step of the client. -/
  | client
  /-- `SIGALRM`. -/
  | sigalrm
  /-- The datagram number `k` gets to the server, which sends it back. -/
  | server (k : ℕ)
  /-- The answer number `j` gets to the client. -/
  | recvmsg (j : ℕ)
  /-- Time passes. -/
  | tick (d : ℕ)
  deriving DecidableEq, Repr

/-! ### The programs -/

/-- The loop of `dg_echo`: `Recvfrom` loses what does not fit into `mesg`. -/
def dgEcho (mesg : List UInt8) : List UInt8 := mesg.take maxLine

namespace Sys

/-- The beginning of `dg_send_recv`. -/
def begin (s : Sys) (outbuff inbuff : List UInt8) (inbytes : ℕ) : Sys :=
  { s with
    rttinfo := rttNewpack (if s.rttinit then s.rttinfo else rttInit s.rttinfo s.now)
    rttinit := true
    sendhdr := { s.sendhdr with seq := s.sendhdr.seq + 1 }
    outbuff
    inbuff
    inbytes
    call := s.call + 1
    pc := .sendagain }

/-- The end of `dg_send_recv`, after `alarm(0)`. -/
def finish (s : Sys) (n : ℕ) : Sys :=
  let sample := rttTs s.rttinfo.rttBase s.now - (decode s.recvhdr).ts
  { s with
    rttinfo := rttStop s.rttinfo sample
    returns := s.returns ++ [{
      call := s.call
      outbuff := s.outbuff
      inbytes := s.inbytes
      n := n - hdrLen
      bytes := s.inbuff.take (n - hdrLen)
      sample := sample
      base := s.rttinfo.rttBase
      time := s.now
      origin := s.origin }]
    pc := .idle }

/-- `dg_send_recv`, apart from `Recvmsg`. -/
def clientStep (s : Sys) : Option Sys :=
  match s.pc with
  | .sendagain =>
    some { s with
      sendhdr := { s.sendhdr with ts := rttTs s.rttinfo.rttBase s.now }
      stamp := s.now
      pc := .sendmsg }
  | .sendmsg =>
    some { s with
      sent := s.sent ++
        [⟨s.call, s.rttinfo.rttBase, s.stamp, s.sendhdr.encode ++ s.outbuff⟩]
      pc := .alarm }
  | .alarm => some { s with timer := rttStart s.rttinfo, pc := .sigsetjmp }
  | .sigsetjmp => some { s with jmpbuf := some s.call, pc := .recvmsg }
  | .test n =>
    if n < hdrLen ∨ (decode s.recvhdr).seq ≠ s.sendhdr.seq then some { s with pc := .recvmsg }
    else some { s with pc := .stop n }
  | .stop n => some { s with pc := .stopped n }
  | .stopped n => some (s.finish n)
  | .timeout =>
    if (rttTimeout s.rttinfo).2 then
      -- return -1
      some { s with rttinfo := (rttTimeout s.rttinfo).1, rttinit := false, pc := .idle }
    else some { s with rttinfo := (rttTimeout s.rttinfo).1, pc := .sendagain }
  | _ => none

/-- `Recvmsg` stores a datagram in `recvhdr` and `inbuff`, as far as it fits. -/
def receive (s : Sys) (r : Reply) : Sys :=
  { s with
    recvhdr := writeAt s.recvhdr 0 (r.bytes.take hdrLen)
    inbuff := writeAt s.inbuff 0 ((r.bytes.drop hdrLen).take s.inbytes)
    origin := r.origin
    pc := .test (min r.bytes.length (hdrLen + s.inbytes)) }

end Sys

/-- The transition function. -/
def step (s : Sys) : Act → Option Sys
  | .call outbuff inbuff inbytes =>
    if s.pc = .idle ∧ inbytes ≤ inbuff.length then some (s.begin outbuff inbuff inbytes) else none
  | .client => s.clientStep
  | .sigalrm =>
    if s.pc.interruptible then
      some { s with pc := if s.jmpbuf = some s.call then .timeout else .undefined }
    else none
  | .server k => s.sent[k]?.map fun e => { s with replies := s.replies ++ [⟨k, dgEcho e.bytes⟩] }
  | .recvmsg j => if s.pc = .recvmsg then s.replies[j]?.map s.receive else none
  | .tick d => some { s with now := s.now + d }

/-- The state before the first call. -/
def init (now : ℕ) : Sys where
  rttinfo := ⟨0, 0, 0, 0, 0, 0⟩
  rttinit := false
  sendhdr := ⟨0, 0⟩
  recvhdr := List.replicate hdrLen 0
  jmpbuf := none
  outbuff := []
  inbuff := []
  inbytes := 0
  pc := .idle
  timer := 0
  call := 0
  stamp := now
  origin := 0
  now := now
  sent := []
  replies := []
  returns := []

/-! ### The invariant -/

/-- The header of a datagram that was sent. -/
def Sent.hdr (e : Sent) : Hdr := ⟨UInt32.ofNat e.call, rttTs e.base e.stamp⟩

/-- A datagram is as the client sends it. -/
def Sent.WellFormed (e : Sent) : Prop := e.bytes = e.hdr.encode ++ e.payload

/-- The number of bytes received of an answer. -/
def Sent.received (e : Sent) (inbytes : ℕ) : ℕ :=
  min (dgEcho e.bytes).length (hdrLen + inbytes)

/-- The answer to a datagram is in memory, as far as `n` bytes go. -/
structure Sent.HeldIn (e : Sent) (recvhdr inbuff : List UInt8) (inbytes n : ℕ) : Prop where
  n_eq : n = e.received inbytes
  hdr_eq : decode recvhdr = e.hdr
  inbuff_eq : inbuff.take (n - hdrLen) = e.payload.take (n - hdrLen)

/-- The call has returned the answer to the datagram `e`. -/
structure Return.AnsweredBy (r : Return) (e : Sent) : Prop where
  seq_eq : UInt32.ofNat e.call = UInt32.ofNat r.call
  call_le : e.call ≤ r.call
  n_eq : r.n = e.received r.inbytes - hdrLen
  bytes_eq : r.bytes = e.payload.take r.n
  sample_eq : r.sample = rttTs r.base r.time - rttTs e.base e.stamp
  stamp_le : e.stamp ≤ r.time
  /-- What is known of a datagram of this very call. -/
  same : e.call = r.call → e.payload = r.outbuff ∧ e.base = r.base

/-- The call has returned the answer to its datagram in the list. -/
def Return.Answered (sent : List Sent) (r : Return) : Prop :=
  ∃ e, sent[r.origin]? = some e ∧ e.WellFormed ∧ r.AnsweredBy e

/-- The number of bytes received, from the test on. -/
def Pc.got : Pc → Option ℕ
  | .test n => some n
  | .stop n => some n
  | .stopped n => some n
  | _ => none

/-- The number of bytes accepted. -/
def Pc.accepted : Pc → Option ℕ
  | .stop n => some n
  | .stopped n => some n
  | _ => none

structure Inv (s : Sys) : Prop where
  seq_eq : s.sendhdr.seq = UInt32.ofNat s.call
  recvhdr_length : s.recvhdr.length = hdrLen
  inbytes_le : s.inbytes ≤ s.inbuff.length
  sent_call_le : ∀ e ∈ s.sent, e.call ≤ s.call
  sent_stamp_le : ∀ e ∈ s.sent, e.stamp ≤ s.now
  sent_wellFormed : ∀ e ∈ s.sent, e.WellFormed
  /-- All datagrams of the last call have its payload and its base. -/
  sent_current : ∀ e ∈ s.sent, e.call = s.call →
    e.payload = s.outbuff ∧ e.base = s.rttinfo.rttBase
  stamp_le : s.stamp ≤ s.now
  ts_eq : s.pc = .sendmsg → s.sendhdr.ts = rttTs s.rttinfo.rttBase s.stamp
  replies_eq : ∀ r ∈ s.replies, ∃ e, s.sent[r.origin]? = some e ∧ r.bytes = dgEcho e.bytes
  holds : ∀ n, s.pc.got = some n → ∃ e, s.sent[s.origin]? = some e ∧
    e.HeldIn s.recvhdr s.inbuff s.inbytes n
  accepted : ∀ n, s.pc.accepted = some n → (decode s.recvhdr).seq = s.sendhdr.seq
  answered : ∀ r ∈ s.returns, r.Answered s.sent

theorem inv_init (now : ℕ) : Inv (init now) where
  seq_eq := rfl
  recvhdr_length := rfl
  inbytes_le := Nat.le_refl 0
  sent_call_le := by nofun
  sent_stamp_le := by nofun
  sent_wellFormed := by nofun
  sent_current := by nofun
  stamp_le := Nat.le_refl now
  ts_eq := by nofun
  replies_eq := by nofun
  holds := by nofun
  accepted := by nofun
  answered := by nofun

section

variable {s : Sys}

/-- What is found in a list is found when the list has grown. -/
theorem getElem?_concat_of_some {α : Type*} {l : List α} {i : ℕ} {x y : α} (h : l[i]? = some x) :
    (l ++ [y])[i]? = some x := by
  obtain ⟨hlt, -⟩ := List.getElem?_eq_some_iff.mp h
  rw [List.getElem?_append_left hlt]
  exact h

/-- A step that leaves the memory, the network and the records alone. -/
theorem Inv.goto (h : Inv s) {pc : Pc} {rttinfo : RttInfo} {rttinit : Bool} {timer : ℤ}
    {jmpbuf : Option ℕ} (hbase : rttinfo.rttBase = s.rttinfo.rttBase) (hpc : pc ≠ .sendmsg)
    (hgot : ∀ n, pc.got = some n → s.pc.got = some n)
    (haccepted : ∀ n, pc.accepted = some n → (decode s.recvhdr).seq = s.sendhdr.seq) :
    Inv { s with pc, rttinfo, rttinit, timer, jmpbuf } :=
  { h with
    sent_current := by
      intro e he hcall
      rw [hbase]
      exact h.sent_current e he hcall
    ts_eq := fun hsendmsg => absurd hsendmsg hpc
    holds := fun n hn => h.holds n (hgot n hn)
    accepted := haccepted }

/-- A call begins. -/
theorem Inv.begin (h : Inv s) (outbuff inbuff : List UInt8) {inbytes : ℕ}
    (hle : inbytes ≤ inbuff.length) : Inv (s.begin outbuff inbuff inbytes) :=
  { h with
    seq_eq := by
      simp only [Sys.begin, h.seq_eq, UInt32.ofNat_add]
      rfl
    inbytes_le := hle
    sent_call_le := fun e he => Nat.le_succ_of_le (h.sent_call_le e he)
    sent_current := by
      -- the new call has not sent anything
      intro e he hcall
      have hle := h.sent_call_le e he
      simp only [Sys.begin] at hcall
      omega
    ts_eq := by nofun
    holds := by nofun
    accepted := by nofun }

/-- The timestamp is taken. -/
theorem Inv.stampTaken (h : Inv s) :
    Inv { s with
      sendhdr := { s.sendhdr with ts := rttTs s.rttinfo.rttBase s.now }
      stamp := s.now
      pc := .sendmsg } :=
  { h with
    stamp_le := Nat.le_refl s.now
    ts_eq := fun _ => rfl
    holds := by nofun
    accepted := by nofun }

/-- The datagram is sent. -/
theorem Inv.sendmsg (h : Inv s) (hpc : s.pc = .sendmsg) :
    Inv { s with
      sent := s.sent ++ [⟨s.call, s.rttinfo.rttBase, s.stamp, s.sendhdr.encode ++ s.outbuff⟩]
      pc := .alarm } := by
  have hdrop : (s.sendhdr.encode ++ s.outbuff).drop hdrLen = s.outbuff := by
    rw [← length_encode s.sendhdr, List.drop_left]
  have hhdr : s.sendhdr = ⟨UInt32.ofNat s.call, rttTs s.rttinfo.rttBase s.stamp⟩ := by
    rw [← h.seq_eq, ← h.ts_eq hpc]
  refine { h with
    sent_call_le := ?_, sent_stamp_le := ?_, sent_wellFormed := ?_, sent_current := ?_,
    ts_eq := by nofun, replies_eq := ?_, holds := by nofun, accepted := by nofun, answered := ?_ }
  · intro e he
    rcases List.mem_append.mp he with hold | hnew
    · exact h.sent_call_le e hold
    · rw [List.mem_singleton.mp hnew]
  · intro e he
    rcases List.mem_append.mp he with hold | hnew
    · exact h.sent_stamp_le e hold
    · rw [List.mem_singleton.mp hnew]
      exact h.stamp_le
  · intro e he
    rcases List.mem_append.mp he with hold | hnew
    · exact h.sent_wellFormed e hold
    · rw [List.mem_singleton.mp hnew]
      simp only [Sent.WellFormed, Sent.payload, Sent.hdr, hdrop, ← hhdr]
  · intro e he hcall
    rcases List.mem_append.mp he with hold | hnew
    · exact h.sent_current e hold hcall
    · rw [List.mem_singleton.mp hnew]
      exact ⟨hdrop, rfl⟩
  · intro r hr
    obtain ⟨e, he, hbytes⟩ := h.replies_eq r hr
    exact ⟨e, getElem?_concat_of_some he, hbytes⟩
  · intro r hr
    obtain ⟨e, he, hanswered⟩ := h.answered r hr
    exact ⟨e, getElem?_concat_of_some he, hanswered⟩

/-- The server sends an answer. -/
theorem Inv.server (h : Inv s) {k : ℕ} {e : Sent} (he : s.sent[k]? = some e) :
    Inv { s with replies := s.replies ++ [⟨k, dgEcho e.bytes⟩] } :=
  { h with
    replies_eq := by
      intro r hr
      rcases List.mem_append.mp hr with hold | hnew
      · exact h.replies_eq r hold
      · rw [List.mem_singleton.mp hnew]
        exact ⟨e, he, rfl⟩ }

end

/-- The header comes back as it was sent. -/
theorem take_dgEcho (h : Hdr) (payload : List UInt8) :
    (dgEcho (h.encode ++ payload)).take hdrLen = h.encode := by
  rw [dgEcho, List.take_take, Nat.min_eq_left (by decide), List.take_left' (length_encode h)]

theorem length_dgEcho (h : Hdr) (payload : List UInt8) :
    (dgEcho (h.encode ++ payload)).length = hdrLen + min payload.length (maxLine - hdrLen) := by
  rw [dgEcho, List.length_take, List.length_append, length_encode, hdrLen, maxLine]
  omega

/-- Every datagram has a whole header, also when it comes back. -/
theorem Sent.WellFormed.take_dgEcho {e : Sent} (h : e.WellFormed) :
    (dgEcho e.bytes).take hdrLen = e.hdr.encode ∧
      (dgEcho e.bytes).drop hdrLen = e.payload.take (maxLine - hdrLen) := by
  have hbytes : e.bytes = e.hdr.encode ++ e.payload := h
  constructor
  · rw [hbytes]
    exact Rtt.take_dgEcho e.hdr e.payload
  · rw [dgEcho, List.drop_take, Sent.payload]

theorem Sent.WellFormed.length_dgEcho {e : Sent} (h : e.WellFormed) :
    (dgEcho e.bytes).length = hdrLen + min e.payload.length (maxLine - hdrLen) := by
  have hbytes : e.bytes = e.hdr.encode ++ e.payload := h
  rw [hbytes]
  exact Rtt.length_dgEcho e.hdr e.payload

section

variable {s : Sys}

/-- The answer is stored where the client looks for it. -/
theorem Inv.receive (h : Inv s) {r : Reply} (hr : r ∈ s.replies) : Inv (s.receive r) := by
  obtain ⟨e, he, hbytes⟩ := h.replies_eq r hr
  have hwf := h.sent_wellFormed e (List.mem_of_getElem? he)
  obtain ⟨hhead, htail⟩ := hwf.take_dgEcho
  have hlen := hwf.length_dgEcho
  have hmem : ((r.bytes.drop hdrLen).take s.inbytes).length ≤ s.inbuff.length := by
    rw [List.length_take]
    exact (Nat.min_le_left _ _).trans h.inbytes_le
  have hrecvhdr : (s.receive r).recvhdr = e.hdr.encode := by
    have hall : s.recvhdr.drop (0 + hdrLen) = [] :=
      List.drop_eq_nil_of_le (by rw [h.recvhdr_length]; decide)
    simp only [Sys.receive, hbytes, hhead, writeAt, List.take_zero, List.nil_append, length_encode,
      hall, List.append_nil]
  refine { h with
    recvhdr_length := ?_, inbytes_le := ?_, ts_eq := ?_, holds := ?_, accepted := ?_ }
  · rw [hrecvhdr, length_encode]
  · simp only [Sys.receive]
    rw [length_writeAt (by rw [Nat.zero_add]; exact hmem)]
    exact h.inbytes_le
  · intro hpc
    cases hpc
  · intro n hn
    have hn' : n = e.received s.inbytes := by
      simp only [Sys.receive, Pc.got, Option.some.injEq, hbytes] at hn
      exact hn.symm
    refine ⟨e, he, hn', by rw [hrecvhdr, decode_encode], ?_⟩
    -- the part of the datagram behind the header that has been stored
    have hstored : ((dgEcho e.bytes).drop hdrLen).take s.inbytes =
        e.payload.take (n - hdrLen) := by
      rw [htail, List.take_take, hn', Sent.received, hlen]
      rcases Nat.le_total e.payload.length (min s.inbytes (maxLine - hdrLen)) with hle | hge
      · rw [List.take_of_length_le hle, List.take_of_length_le (by omega)]
      · congr 1
        omega
    have hstoredLen : (e.payload.take (n - hdrLen)).length = n - hdrLen := by
      rw [List.length_take, hn', Sent.received, hlen]
      omega
    show (writeAt s.inbuff 0 ((r.bytes.drop hdrLen).take s.inbytes)).take (n - hdrLen) = _
    rw [hbytes, hstored]
    have hfirst := take_writeAt_zero s.inbuff (e.payload.take (n - hdrLen))
    rwa [hstoredLen] at hfirst
  · intro n hn
    cases hn

/-- The call returns. -/
theorem Inv.finish (h : Inv s) {n : ℕ} (hpc : s.pc = .stopped n) : Inv (s.finish n) := by
  obtain ⟨e, he, hholds⟩ := h.holds n (by rw [hpc]; rfl)
  have hseq := h.accepted n (by rw [hpc]; rfl)
  have hmem := List.mem_of_getElem? he
  refine { h with
    sent_current := ?_, ts_eq := by nofun, holds := by nofun, accepted := by nofun,
    answered := ?_ }
  · intro e' he' hcall
    simp only [Sys.finish, rttBase_rttStop]
    exact h.sent_current e' he' hcall
  · intro r hr
    rcases List.mem_append.mp hr with hold | hnew
    · exact h.answered r hold
    · rw [List.mem_singleton.mp hnew]
      refine ⟨e, he, h.sent_wellFormed e hmem, ?_⟩
      exact {
        seq_eq := by
          rw [hholds.hdr_eq, h.seq_eq] at hseq
          exact hseq
        call_le := h.sent_call_le e hmem
        n_eq := by rw [hholds.n_eq]
        bytes_eq := hholds.inbuff_eq
        sample_eq := by simp only [hholds.hdr_eq, Sent.hdr]
        stamp_le := h.sent_stamp_le e hmem
        same := h.sent_current e hmem }

theorem inv_clientStep {s' : Sys} (h : Inv s) (hs : s.clientStep = some s') : Inv s' := by
  unfold Sys.clientStep at hs
  split at hs
  · cases hs
    exact h.stampTaken
  · next hpc =>
    cases hs
    exact h.sendmsg hpc
  · cases hs
    exact h.goto rfl (by nofun) (by nofun) (by nofun)
  · cases hs
    exact h.goto rfl (by nofun) (by nofun) (by nofun)
  · next n hpc =>
    split at hs
    · cases hs
      exact h.goto rfl (by nofun) (by nofun) (by nofun)
    · next hmatch =>
      cases hs
      rw [not_or, not_not] at hmatch
      refine h.goto rfl (by nofun) ?_ fun _ _ => hmatch.2
      intro k hk
      rw [hpc]
      exact hk
  · next n hpc =>
    cases hs
    refine h.goto rfl (by nofun) ?_ ?_
    · intro k hk
      rw [hpc]
      exact hk
    · intro _ _
      exact h.accepted n (by rw [hpc]; rfl)
  · next n hpc =>
    cases hs
    exact h.finish hpc
  · split at hs
    · cases hs
      exact h.goto rfl (by nofun) (by nofun) (by nofun)
    · cases hs
      exact h.goto rfl (by nofun) (by nofun) (by nofun)
  · cases hs

end

/-- **Every step keeps the invariant.** -/
theorem inv_step (s : Sys) (a : Act) (s' : Sys) (h : Inv s) (hs : step s a = some s') : Inv s' := by
  cases a with
  | call outbuff inbuff inbytes =>
    simp only [step] at hs
    split at hs
    · next hguard =>
      cases hs
      exact h.begin outbuff inbuff hguard.2
    · cases hs
  | client => exact inv_clientStep h hs
  | sigalrm =>
    simp only [step] at hs
    split at hs
    · cases hs
      refine h.goto rfl ?_ ?_ ?_
      · split <;> nofun
      · split <;> nofun
      · split <;> nofun
    · cases hs
  | server k =>
    obtain ⟨e, he, rfl⟩ := Option.map_eq_some_iff.mp hs
    exact h.server he
  | recvmsg j =>
    simp only [step] at hs
    split at hs
    · obtain ⟨r, hr, rfl⟩ := Option.map_eq_some_iff.mp hs
      exact h.receive (List.mem_of_getElem? hr)
    · cases hs
  | tick d =>
    cases hs
    exact { h with
      sent_stamp_le := fun e he => Nat.le_add_right_of_le (h.sent_stamp_le e he)
      stamp_le := Nat.le_add_right_of_le h.stamp_le }

/-- Every call that has returned has been answered. -/
theorem answered_of_reachable {now : ℕ} {s : Sys} (h : Reachable step (init now) s) {r : Return}
    (hr : r ∈ s.returns) : r.Answered s.sent :=
  (exec_invariant inv_step (inv_init now) h).answered r hr

/-- Before the sequence numbers wrap they tell the calls apart. -/
theorem Return.AnsweredBy.call_eq {r : Return} {e : Sent} (h : r.AnsweredBy e)
    (hcall : r.call < 2 ^ 32) : e.call = r.call := by
  have hle := h.call_le
  have hseq := congrArg UInt32.toNat h.seq_eq
  rw [UInt32.toNat_ofNat', UInt32.toNat_ofNat', Nat.mod_eq_of_lt hcall,
    Nat.mod_eq_of_lt (by omega)] at hseq
  exact hseq

/-! ### The results -/

/-- **Answers are to the current request.**  In every reachable state, for every call that
has returned a length, before the sequence numbers wrap: the datagram whose answer was
accepted was sent by this very call, and the bytes returned are the first `n` bytes of its
payload. -/
theorem answers_current (now : ℕ) (s : Sys) (h : Reachable step (init now) s) (r : Return)
    (hr : r ∈ s.returns) (hcall : r.call < 2 ^ 32) :
    ∃ e, s.sent[r.origin]? = some e ∧ e.call = r.call ∧ r.n ≤ e.payload.length ∧
      r.bytes = e.payload.take r.n := by
  obtain ⟨e, he, hwf, hanswered⟩ := answered_of_reachable h hr
  refine ⟨e, he, hanswered.call_eq hcall, ?_, hanswered.bytes_eq⟩
  have hlen := hwf.length_dgEcho
  rw [hanswered.n_eq, Sent.received, hlen]
  omega

/-- The first request is answered twice; the second call gets the late answer to the first
one before its own. -/
def lateRun : List Act :=
  [.call [104] [0, 0] 2, .client, .client, .client, .client, .server 0, .server 0, .recvmsg 0,
   .client, .client, .tick 7000, .client, .call [105, 106] [0, 0] 2, .client, .client, .client,
   .client, .server 1, .recvmsg 1, .client, .sigalrm, .client, .client, .client, .client, .client,
   .recvmsg 2, .client, .client, .tick 2000, .client]

theorem answers_current_lateRun :
    ∃ s, exec step (init 5000000) lateRun = some s ∧
      ∃ r, s.returns[1]? = some r ∧ r.call = 2 ∧ r.bytes = [105, 106] ∧
        ∃ e, s.sent[r.origin]? = some e ∧ e.call = r.call ∧ r.n ≤ e.payload.length ∧
          r.bytes = e.payload.take r.n := by
  obtain ⟨s, hs, hfacts⟩ := Option.map_eq_some_iff.mp
    (show (exec step (init 5000000) lateRun).map
      (fun s => s.returns[1]?.map fun r => (r.call, r.bytes)) =
        some (some (2, [105, 106])) by decide)
  obtain ⟨r, hr, hr'⟩ := Option.map_eq_some_iff.mp hfacts
  simp only [Prod.mk.injEq] at hr'
  have hcall : r.call < 2 ^ 32 := by
    rw [hr'.1]
    decide
  exact ⟨s, hs, r, hr, hr'.1, hr'.2,
    answers_current 5000000 s ⟨lateRun, hs⟩ r (List.mem_of_getElem? hr) hcall⟩

/-- **Round-trip times.**  In every reachable state, for every call that has returned a
length, before the sequence numbers wrap: the two timestamps it has subtracted are
relative to the same base, and the value passed to `rtt_stop` is the difference of the
millisecond clocks at the end of the call and at the transmission of the datagram whose
answer was accepted, modulo `2 ^ 32`, and exactly if it is less than that. -/
theorem samples_exact (now : ℕ) (s : Sys) (h : Reachable step (init now) s) (r : Return)
    (hr : r ∈ s.returns) (hcall : r.call < 2 ^ 32) :
    ∃ e, s.sent[r.origin]? = some e ∧ e.call = r.call ∧ e.base = r.base ∧
      r.sample = rttTs r.base r.time - rttTs e.base e.stamp ∧
      r.sample = UInt32.ofNat (ms r.time) - UInt32.ofNat (ms e.stamp) ∧
      (ms r.time - ms e.stamp < 2 ^ 32 → r.sample.toNat = ms r.time - ms e.stamp) := by
  obtain ⟨e, he, -, hanswered⟩ := answered_of_reachable h hr
  have hsame := hanswered.call_eq hcall
  have hbase := (hanswered.same hsame).2
  have hsample : r.sample = UInt32.ofNat (ms r.time) - UInt32.ofNat (ms e.stamp) := by
    rw [hanswered.sample_eq, hbase, rttTs_sub]
  refine ⟨e, he, hsame, hbase, hanswered.sample_eq, hsample, ?_⟩
  intro hlt
  rw [hsample]
  exact toNat_ofNat_sub (ms_mono hanswered.stamp_le) hlt

theorem samples_exact_lateRun :
    ∃ s, exec step (init 5000000) lateRun = some s ∧
      ∃ r, s.returns[0]? = some r ∧ r.call = 1 ∧ r.sample = 7 ∧
        ∃ e, s.sent[r.origin]? = some e ∧ e.base = r.base ∧
          r.sample = UInt32.ofNat (ms r.time) - UInt32.ofNat (ms e.stamp) := by
  obtain ⟨s, hs, hfacts⟩ := Option.map_eq_some_iff.mp
    (show (exec step (init 5000000) lateRun).map
      (fun s => s.returns[0]?.map fun r => (r.call, r.sample)) = some (some (1, 7)) by decide)
  obtain ⟨r, hr, hr'⟩ := Option.map_eq_some_iff.mp hfacts
  simp only [Prod.mk.injEq] at hr'
  have hcall : r.call < 2 ^ 32 := by
    rw [hr'.1]
    decide
  obtain ⟨e, he, -, hbase, -, hsample, -⟩ :=
    samples_exact 5000000 s ⟨lateRun, hs⟩ r (List.mem_of_getElem? hr) hcall
  exact ⟨s, hs, r, hr, hr'.1, hr'.2, e, he, hbase, hsample⟩

end Rtt
end TcpIp
