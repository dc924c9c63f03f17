import TcpIp.Rtt.SendRecv

/-!
# Lines over the unreliable network

The client program (`rtt/dg_cli.c`) sends every line it reads with `dg_send_recv` and
prints what comes back.  Its buffers have room for a line of `MAXLINE` bytes, and the
header has a buffer of its own.  In the server both have to share `MAXLINE` bytes, so
the last bytes of a line that is longer than `MAXLINE` less the size of the header do
not come back.

## Main definitions

* `DgCli` — the calls the client program makes.
* `Return.Complete` — the whole line has come back.

## Main results

* `line_complete_iff` — which lines come back.
-/

namespace TcpIp
namespace Rtt

open Run Buffer

/-- The bytes up to the terminating null, `strlen(sendline)` of them. -/
def cString (sendline : List UInt8) : List UInt8 := sendline.takeWhile (· ≠ 0)

/-- `Fgets(sendline, MAXLINE, fp)` may read this line. -/
def Readable (sendline : List UInt8) : Prop :=
  1 ≤ sendline.length ∧ sendline.length ≤ maxLine - 1

instance (sendline : List UInt8) : Decidable (Readable sendline) :=
  inferInstanceAs (Decidable (_ ∧ _))

/-- The loop of `dg_cli` makes such calls only: `recvline` has `MAXLINE + 1` bytes. -/
def DgCli (_ : Sys) (a : Act) : Prop :=
  ∀ outbuff inbuff inbytes, a = .call outbuff inbuff inbytes →
    inbytes = maxLine ∧ inbuff.length = maxLine + 1 ∧
      ∃ sendline, Readable sendline ∧ outbuff = cString sendline

/-- What was sent has come back. -/
def Return.Complete (r : Return) : Prop := r.n = r.outbuff.length ∧ r.bytes = r.outbuff

/-- The arguments of a call of `dg_cli`. -/
def FromDgCli (outbuff : List UInt8) (inbytes : ℕ) : Prop :=
  inbytes = maxLine ∧ ∃ sendline, Readable sendline ∧ outbuff = cString sendline

/-- All calls were made by `dg_cli`. -/
structure Sys.CalledByDgCli (s : Sys) : Prop where
  current : s.pc ≠ .idle → FromDgCli s.outbuff s.inbytes
  returns : ∀ r ∈ s.returns, FromDgCli r.outbuff r.inbytes

theorem calledByDgCli_clientStep {s s' : Sys} (h : s.CalledByDgCli) (hs : s.clientStep = some s') :
    s'.CalledByDgCli := by
  have hargs : FromDgCli s.outbuff s.inbytes := by
    refine h.current fun hidle => ?_
    rw [Sys.clientStep, hidle] at hs
    cases hs
  unfold Sys.clientStep at hs
  split at hs
  · cases hs; exact ⟨fun _ => hargs, h.returns⟩
  · cases hs; exact ⟨fun _ => hargs, h.returns⟩
  · cases hs; exact ⟨fun _ => hargs, h.returns⟩
  · cases hs; exact ⟨fun _ => hargs, h.returns⟩
  · split at hs <;> cases hs <;> exact ⟨fun _ => hargs, h.returns⟩
  · cases hs; exact ⟨fun _ => hargs, h.returns⟩
  · -- the call returns
    cases hs
    refine ⟨fun hidle => absurd rfl hidle, fun r hr => ?_⟩
    rcases List.mem_append.mp hr with hold | hnew
    · exact h.returns r hold
    · rw [List.mem_singleton.mp hnew]
      exact hargs
  · split at hs <;> cases hs <;> exact ⟨fun _ => hargs, h.returns⟩
  · cases hs

theorem calledByDgCli_step (s : Sys) (a : Act) (s' : Sys) (h : s.CalledByDgCli) (hcli : DgCli s a)
    (hs : step s a = some s') : s'.CalledByDgCli := by
  cases a with
  | call outbuff inbuff inbytes =>
    simp only [step] at hs
    split at hs
    · cases hs
      obtain ⟨hinbytes, -, hline⟩ := hcli outbuff inbuff inbytes rfl
      exact { h with current := fun _ => ⟨hinbytes, hline⟩ }
    · cases hs
  | client => exact calledByDgCli_clientStep h hs
  | sigalrm =>
    simp only [step] at hs
    split at hs
    · next hpc =>
      cases hs
      exact { h with current := fun _ => h.current fun hidle => by rw [hidle] at hpc; cases hpc }
    · cases hs
  | server k =>
    obtain ⟨e, -, rfl⟩ := Option.map_eq_some_iff.mp hs
    exact { h with }
  | recvmsg j =>
    simp only [step] at hs
    split at hs
    · next hpc =>
      obtain ⟨r, -, rfl⟩ := Option.map_eq_some_iff.mp hs
      exact { h with current := fun _ => h.current fun hidle => by rw [hidle] at hpc; cases hpc }
    · cases hs
  | tick d =>
    cases hs
    exact { h with }

/-! ### The length that comes back -/

/-- No answer has more bytes than the server has room for. -/
theorem Return.Answered.n_le {sent : List Sent} {r : Return} (h : r.Answered sent) :
    r.n ≤ maxLine - hdrLen := by
  obtain ⟨e, -, hwf, hanswered⟩ := h
  have hlen := hwf.length_dgEcho
  rw [hanswered.n_eq, Sent.received, hlen]
  omega

/-- Before the sequence numbers wrap, an answer is as long as the server has made it. -/
theorem Return.Answered.n_eq {sent : List Sent} {r : Return} (h : r.Answered sent)
    (hcall : r.call < 2 ^ 32) (hinbytes : r.inbytes = maxLine) :
    r.n = min r.outbuff.length (maxLine - hdrLen) := by
  obtain ⟨e, -, hwf, hanswered⟩ := h
  obtain ⟨hpayload, -⟩ := hanswered.same (hanswered.call_eq hcall)
  have hlen := hwf.length_dgEcho
  rw [hanswered.n_eq, Sent.received, hlen, hinbytes, hpayload]
  omega

/-- The answer to a short line is the line. -/
theorem Return.Answered.complete {sent : List Sent} {r : Return} (h : r.Answered sent)
    (hcall : r.call < 2 ^ 32) (hinbytes : r.inbytes = maxLine)
    (hshort : r.outbuff.length ≤ maxLine - hdrLen) : r.Complete := by
  have hn : r.n = r.outbuff.length := by
    rw [h.n_eq hcall hinbytes, Nat.min_eq_left hshort]
  obtain ⟨e, -, -, hanswered⟩ := h
  obtain ⟨hpayload, -⟩ := hanswered.same (hanswered.call_eq hcall)
  refine ⟨hn, ?_⟩
  rw [hanswered.bytes_eq, hpayload, hn, List.take_length]

/-! ### One exchange -/

/-- A line is sent, answered, and the answer received. -/
def exchangeRun (sendline recvline : List UInt8) : List Act :=
  [.call (cString sendline) recvline maxLine, .client, .client, .client, .client, .server 0,
   .recvmsg 0, .client, .client, .client]

/-- The header of the answer is the one sent. -/
theorem decode_received (h : Hdr) (payload : List UInt8) :
    decode (writeAt (List.replicate hdrLen 0) 0 ((dgEcho (h.encode ++ payload)).take hdrLen))
      = h := by
  rw [take_dgEcho]
  exact decode_encode h

/-- The answer has a header. -/
theorem hdrLen_le_received (h : Hdr) (payload : List UInt8) :
    hdrLen ≤ min (dgEcho (h.encode ++ payload)).length (hdrLen + maxLine) := by
  rw [length_dgEcho]
  omega

/-- Every line is answered if no datagram is lost. -/
theorem exec_exchangeRun (now : ℕ) {sendline recvline : List UInt8}
    (hlen : recvline.length = maxLine + 1) :
    ∃ s, exec step (init now) (exchangeRun sendline recvline) = some s ∧
      ∃ r ∈ s.returns, r.call = 1 ∧ r.inbytes = maxLine ∧ r.outbuff = cString sendline := by
  have hroom : maxLine ≤ recvline.length := by omega
  have hreturns : (exec step (init now) (exchangeRun sendline recvline)).map
      (fun s => s.returns.map fun r => (r.call, r.inbytes, r.outbuff)) =
        some [(1, maxLine, cString sendline)] := by
    simp [exchangeRun, exec, step, init, hroom, Sys.begin, Sys.clientStep, Sys.receive, Sys.finish,
      decode_received, Nat.not_lt.mpr (hdrLen_le_received _ _)]
  obtain ⟨s, hs, hr⟩ := Option.map_eq_some_iff.mp hreturns
  obtain ⟨r, hr, hargs⟩ := List.map_eq_singleton_iff.mp hr
  simp only [Prod.mk.injEq] at hargs
  exact ⟨s, hs, r, hr ▸ List.mem_singleton_self r, hargs⟩

theorem along_exchangeRun (now : ℕ) {sendline recvline : List UInt8} (hread : Readable sendline)
    (hlen : recvline.length = maxLine + 1) :
    Along step DgCli (init now) (exchangeRun sendline recvline) := by
  refine along_of_forall _ _ ?_
  intro a ha _ outbuff inbuff inbytes hcall
  rw [hcall] at ha
  simp only [exchangeRun, List.mem_cons, Act.call.injEq, reduceCtorEq, List.not_mem_nil,
    or_false] at ha
  obtain ⟨rfl, rfl, rfl⟩ := ha
  exact ⟨rfl, hlen, sendline, hread, rfl⟩

/-! ### Complete and truncated lines -/

/-- **Which lines come back.**  In every run in which all calls are made by `dg_cli`, for
every call that has returned: the line sent is one `dg_cli` has read; if it has come back
it leaves room for the header in `MAXLINE` bytes; and, before the sequence numbers wrap,
it has come back exactly if it does. -/
theorem line_complete_iff (now : ℕ) (run : List Act) (s : Sys)
    (hrun : exec step (init now) run = some s) (hcli : Along step DgCli (init now) run)
    (r : Return) (hr : r ∈ s.returns) :
    (∃ sendline, Readable sendline ∧ r.outbuff = cString sendline) ∧
    (r.Complete → r.outbuff.length ≤ maxLine - hdrLen) ∧
    (r.call < 2 ^ 32 → (r.Complete ↔ r.outbuff.length ≤ maxLine - hdrLen)) := by
  have hanswered := answered_of_reachable ⟨run, hrun⟩ hr
  have hcalled : s.CalledByDgCli :=
    exec_invariant_along calledByDgCli_step run (init now) s ⟨by nofun, by nofun⟩ hcli hrun
  obtain ⟨hinbytes, hline⟩ := hcalled.returns r hr
  have hfits : r.Complete → r.outbuff.length ≤ maxLine - hdrLen := by
    intro hcomplete
    rw [← hcomplete.1]
    exact hanswered.n_le
  exact ⟨hline, hfits, fun hcall => ⟨hfits, hanswered.complete hcall hinbytes⟩⟩

theorem line_complete_iff_hi :
    ∃ s r, exec step (init 0) (exchangeRun [104, 105, 10] (List.replicate 4097 0)) = some s ∧
      r ∈ s.returns ∧ r.outbuff = [104, 105, 10] ∧ r.Complete := by
  have hlen : (List.replicate 4097 (0 : UInt8)).length = maxLine + 1 := List.length_replicate
  obtain ⟨s, hs, r, hr, hcall, -, hout⟩ := exec_exchangeRun 0 hlen
  have hcli := along_exchangeRun 0 (by decide : Readable [104, 105, 10]) hlen
  obtain ⟨-, -, hiff⟩ := line_complete_iff 0 _ s hs hcli r hr
  refine ⟨s, r, hs, hr, hout, (hiff (by rw [hcall]; decide)).mpr ?_⟩
  rw [hout]
  decide

/-- The longest line `dg_cli` can read comes back without its last seven bytes. -/
theorem line_truncated :
    ∃ s r, exec step (init 0)
        (exchangeRun (List.replicate 4095 97) (List.replicate 4097 0)) = some s ∧
      Along step DgCli (init 0) (exchangeRun (List.replicate 4095 97) (List.replicate 4097 0)) ∧
      r ∈ s.returns ∧ r.outbuff = List.replicate 4095 97 ∧ r.n = 4088 ∧ ¬ r.Complete := by
  have hlen : (List.replicate 4097 (0 : UInt8)).length = maxLine + 1 := List.length_replicate
  have hread : Readable (List.replicate 4095 97) := by
    rw [Readable, List.length_replicate]
    decide
  have hline : cString (List.replicate 4095 97) = List.replicate 4095 97 := by
    rw [cString, List.takeWhile_replicate]
    rfl
  obtain ⟨s, hs, r, hr, hcall, hinbytes, hout⟩ := exec_exchangeRun 0 hlen
  rw [hline] at hout
  have hn : r.n = 4088 := by
    rw [(answered_of_reachable ⟨_, hs⟩ hr).n_eq (by rw [hcall]; decide) hinbytes, hout,
      List.length_replicate]
    rfl
  refine ⟨s, r, hs, along_exchangeRun 0 hread hlen, hr, hout, hn, fun hcomplete => ?_⟩
  have hfull := hcomplete.1
  rw [hn, hout, List.length_replicate] at hfull
  exact absurd hfull (by decide)

end Rtt
end TcpIp
