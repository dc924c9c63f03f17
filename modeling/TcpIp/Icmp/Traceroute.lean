import Mathlib.Data.Int.Notation
import TcpIp.Icmp.Message
import TcpIp.Lib.Buffer
import TcpIp.Lib.Run

/-!
# The replies to the probes of `traceroute`

`traceroute` sends UDP datagrams with increasing hop limits, each to a port of its own,
and waits for the ICMP error that answers it.  A raw socket hands over every ICMP message
that comes in; `recv_v4` and `recv_v6` go through the messages until they find one that
quotes the datagram just sent, or until the alarm has gone off.

The messages are received into `recvbuf`, which keeps what earlier, longer messages have
left behind the end of the last one.

## Main definitions

* `recvV4`, `recvV6` — the two functions, over what `recvfrom` returns call by call.
* `Answers`, `answer` — a message that answers a probe, and what it says.
* `replyOf` — what the functions are to return.
* `Trace`, `step` — the loops of `traceloop`.

## Main results

* `recvV4_eq_replyOf` — `recv_v4` returns what it is to return.
* `recv_eq_replyOf_iff` — `recv_v6` does so **exactly if** no message comes in that
  says that a hop limit has been exceeded and does not answer the probe.
* `trace_attributes` — what this means for the probes of a run.
-/

namespace TcpIp.Icmp

open Bytes Buffer Run

/-- The type of a time exceeded message. -/
def Ver.timxceed : Ver → ℕ
  | .v4 => icmpTimxceed
  | .v6 => icmp6TimeExceeded

/-- The type of a destination unreachable message. -/
def Ver.unreach : Ver → ℕ
  | .v4 => icmpUnreach
  | .v6 => icmp6DstUnreach

/-- The code for an unreachable port. -/
def Ver.unreachPort : Ver → ℕ
  | .v4 => icmpUnreachPort
  | .v6 => icmp6DstUnreachNoport

/-- The least size of an IP header. -/
def Ver.sizeofIp : Ver → ℕ
  | .v4 => 20
  | .v6 => sizeofIp6

namespace Traceroute

/-! ### The two functions -/

/-- The ports of the datagrams: `sport`, and `dport` plus the number of the probe. -/
structure Ports where
  sport : UInt16
  dport : UInt16
  deriving DecidableEq, Repr

/-- The destination port of a probe. -/
def Ports.dportOf (p : Ports) (seq : ℕ) : ℕ := (p.dport.toNat + seq) % 65536

/-- The ports of the UDP header at `udp` are those of the probe. -/
def Ports.match (p : Ports) (seq : ℕ) (buf : List UInt8) (udp : ℕ) : Bool :=
  uhSport buf udp == p.sport.toNat && uhDport buf udp == p.dportOf seq

/-- What becomes of a message. -/
inductive Verdict where
  /-- `recvfrom` is called again. -/
  | again
  /-- The loop is left; `none` if `ret` has not been set. -/
  | leave (ret : Option ℤ)
  deriving DecidableEq, Repr

/-- What the two branches of `recv_v4` test: the message quotes the probe. -/
def probed4 (p : Ports) (seq : ℕ) (buf : List UInt8) (hlen1 : ℕ) (icmplen : ℤ) : Bool :=
  if icmplen < 8 + 20 then false
  else
    let hip := hlen1 + 8
    let hlen2 := hlen buf hip
    if icmplen < 8 + hlen2 + 4 then false
    else
      let udp := hlen1 + 8 + hlen2
      ipP buf hip == ipprotoUdp && p.match seq buf udp

/-- The body of the loop of `recv_v4` behind `recvfrom`, which has returned `n`. -/
def examine4 (p : Ports) (seq : ℕ) (buf : List UInt8) (n : ℕ) : Verdict :=
  let hlen1 := hlen buf 0
  let icmplen : ℤ := n - hlen1
  let type := icmpType buf hlen1
  let code := icmpCode buf hlen1
  if icmplen < 8 then .again
  else if type = icmpTimxceed ∧ code = icmpTimxceedIntrans then
    if probed4 p seq buf hlen1 icmplen then .leave (some (-2)) else .again
  else if type = icmpUnreach then
    if probed4 p seq buf hlen1 icmplen then
      .leave (some (if code = icmpUnreachPort then -1 else code))
    else .again
  else .again

/-- What the two branches of `recv_v6` test behind the length. -/
def probed6 (p : Ports) (seq : ℕ) (buf : List UInt8) : Bool :=
  let hip6 := 8
  let hlen2 := sizeofIp6
  let udp := 8 + hlen2
  ip6Nxt buf hip6 == ipprotoUdp && p.match seq buf udp

/-- The body of the loop of `recv_v6` behind `recvfrom`. -/
def examine6 (p : Ports) (seq : ℕ) (buf : List UInt8) (n : ℕ) : Verdict :=
  let icmp6len := n
  let type := icmpType buf 0
  let code := icmpCode buf 0
  if icmp6len < 8 then .again
  else if type = icmp6TimeExceeded ∧ code = icmp6TimeExceedTransit then
    if icmp6len < 8 + sizeofIp6 + 4 then .again
    -- the `break` does not belong to the `if` in front of it
    else .leave (if probed6 p seq buf then some (-2) else none)
  else if type = icmp6DstUnreach then
    if icmp6len < 8 + sizeofIp6 + 4 then .again
    else if probed6 p seq buf then
      .leave (some (if code = icmp6DstUnreachNoport then -1 else code))
    else .again
  else .again

def examine : Ver → Ports → ℕ → List UInt8 → ℕ → Verdict
  | .v4 => examine4
  | .v6 => examine6

/-- What a call of `recvfrom` returns.  `alarm` says whether the alarm goes off before
`gotalarm` is tested the next time. -/
inductive Recv where
  | msg (bs : List UInt8) (alarm : Bool)
  | eintr (alarm : Bool)
  /-- An error other than `EINTR`. -/
  | fail
  deriving DecidableEq, Repr

/-- How a call of `recv_v4` or `recv_v6` stands. -/
inductive Outcome where
  | ret (code : ℤ)
  /-- Waiting for the next message. -/
  | waiting
  /-- Left through `err_sys`. -/
  | exited
  deriving DecidableEq, Repr

/-- The loop of a function whose body is `body`, and what it leaves in `recvbuf`.  `junk`
is what happens to be in the variable `ret`. -/
def recvLoop (body : List UInt8 → ℕ → Verdict) (junk : ℤ) :
    Bool → List UInt8 → List Recv → Outcome × List UInt8
  | true, recvbuf, _ => (.ret (-3), recvbuf)
  | false, recvbuf, [] => (.waiting, recvbuf)
  | false, recvbuf, .fail :: _ => (.exited, recvbuf)
  | false, recvbuf, .eintr alarm :: es => recvLoop body junk alarm recvbuf es
  | false, recvbuf, .msg bs alarm :: es =>
    let recvbuf := writeAt recvbuf 0 bs
    match body recvbuf bs.length with
    | .again => recvLoop body junk alarm recvbuf es
    | .leave ret => (.ret (ret.getD junk), recvbuf)

attribute [local simp] recvLoop

/-- `recv_v4`. -/
def recvV4 (p : Ports) (seq : ℕ) := recvLoop (examine4 p seq)

/-- `recv_v6`. -/
def recvV6 (p : Ports) (seq : ℕ) := recvLoop (examine6 p seq)

def recv : Ver → Ports → ℕ → ℤ → Bool → List UInt8 → List Recv → Outcome × List UInt8
  | .v4 => recvV4
  | .v6 => recvV6

/-! ### What they are to return -/

/-- The message says that the hop limit has been exceeded in transit. -/
def Exceeded (v : Ver) (msg : List UInt8) : Prop :=
  icmpType msg (v.icmp msg) = v.timxceed ∧ icmpCode msg (v.icmp msg) = 0

/-- The message says that a destination is unreachable. -/
def Unreachable (v : Ver) (msg : List UInt8) : Prop :=
  icmpType msg (v.icmp msg) = v.unreach

/-- The message quotes the IP header and the UDP ports of a probe. -/
def QuotesProbe (v : Ver) (p : Ports) (seq : ℕ) (msg : List UInt8) : Prop :=
  v.ip msg + v.sizeofIp ≤ msg.length ∧ v.udp msg + 4 ≤ msg.length ∧
    v.proto msg = ipprotoUdp ∧ p.match seq msg (v.udp msg) = true

/-- The message answers a probe. -/
def Answers (v : Ver) (p : Ports) (seq : ℕ) (msg : List UInt8) : Prop :=
  (Exceeded v msg ∨ Unreachable v msg) ∧ QuotesProbe v p seq msg

/-- What a message that answers a probe says. -/
def answer (v : Ver) (msg : List UInt8) : ℤ :=
  let code := icmpCode msg (v.icmp msg)
  if icmpType msg (v.icmp msg) = v.timxceed then -2
  else if code = v.unreachPort then -1
  else code

instance (v : Ver) (msg : List UInt8) : Decidable (Exceeded v msg) :=
  inferInstanceAs (Decidable (_ ∧ _))

instance (v : Ver) (msg : List UInt8) : Decidable (Unreachable v msg) :=
  inferInstanceAs (Decidable (_ = _))

instance (v : Ver) (p : Ports) (seq : ℕ) (msg : List UInt8) :
    Decidable (QuotesProbe v p seq msg) :=
  inferInstanceAs (Decidable (_ ∧ _))

instance (v : Ver) (p : Ports) (seq : ℕ) (msg : List UInt8) : Decidable (Answers v p seq msg) :=
  inferInstanceAs (Decidable (_ ∧ _))

/-- **What a call is to return**: what the first message says that answers the probe, or
`-3` if the alarm has gone off before.  Every other message is skipped. -/
def replyOf (v : Ver) (p : Ports) (seq : ℕ) : Bool → List Recv → Outcome
  | true, _ => .ret (-3)
  | false, [] => .waiting
  | false, .fail :: _ => .exited
  | false, .eintr alarm :: es => replyOf v p seq alarm es
  | false, .msg bs alarm :: es =>
    if Answers v p seq bs then .ret (answer v bs) else replyOf v p seq alarm es

/-- A message by which `recv_v6` is misled. -/
def Stray (p : Ports) (seq : ℕ) (msg : List UInt8) : Prop :=
  Exceeded .v6 msg ∧ 8 + sizeofIp6 + 4 ≤ msg.length ∧ ¬QuotesProbe .v6 p seq msg

instance (p : Ports) (seq : ℕ) (msg : List UInt8) : Decidable (Stray p seq msg) :=
  inferInstanceAs (Decidable (_ ∧ _))

/-- No such message comes in before the call is to end. -/
def Clean (p : Ports) (seq : ℕ) : Bool → List Recv → Prop
  | true, _ => True
  | false, [] => True
  | false, .fail :: _ => True
  | false, .eintr alarm :: es => Clean p seq alarm es
  | false, .msg bs alarm :: es =>
    ¬Stray p seq bs ∧ (Answers .v6 p seq bs ∨ Clean p seq alarm es)

/-! ### One message -/

section Message

variable {v : Ver} {p : Ports} {seq : ℕ} {msg rest : List UInt8}

theorem match_append {udp : ℕ} (h : udp + 4 ≤ msg.length) :
    p.match seq (msg ++ rest) udp = p.match seq msg udp := by
  have hs : uhSport (msg ++ rest) udp = uhSport msg udp := get_append (by omega)
  have hd : uhDport (msg ++ rest) udp = uhDport msg udp := get_append (by omega)
  rw [Ports.match, Ports.match, hs, hd]

/-- The type and the code lie within the message. -/
theorem header_append (h : v.ip msg ≤ msg.length) :
    v.icmp (msg ++ rest) = v.icmp msg ∧
      icmpType (msg ++ rest) (v.icmp msg) = icmpType msg (v.icmp msg) ∧
      icmpCode (msg ++ rest) (v.icmp msg) = icmpCode msg (v.icmp msg) := by
  have hip : v.ip msg = v.icmp msg + 8 := rfl
  exact ⟨Ver.icmp_append (by omega), byte_append (by omega), byte_append (by omega)⟩

/-- The length test of `recv_v4` is about the message. -/
theorem icmplen_iff :
    ((msg.length : ℤ) - hlen (msg ++ rest) 0 < 8) ↔ msg.length < Ver.v4.ip msg := by
  rcases Nat.eq_zero_or_pos msg.length with hzero | hpos
  · simp only [Ver.ip, hzero]
    omega
  · rw [hlen_append hpos]
    simp only [Ver.ip, Ver.icmp]
    omega

theorem probed4_iff (h : Ver.v4.ip msg ≤ msg.length) :
    probed4 p seq (msg ++ rest) (hlen msg 0) (msg.length - hlen msg 0) = true ↔
      QuotesProbe .v4 p seq msg := by
  have hip : Ver.v4.ip msg = hlen msg 0 + 8 := rfl
  have hudp : Ver.v4.udp msg = hlen msg 0 + 8 + hlen msg (hlen msg 0 + 8) := rfl
  unfold probed4 QuotesProbe
  simp only [Ver.sizeofIp]
  split
  · next hshort =>
    have : ¬Ver.v4.ip msg + 20 ≤ msg.length := by omega
    simp [this]
  · next hlong =>
    have hlen2 : hlen (msg ++ rest) (hlen msg 0 + 8) = hlen msg (hlen msg 0 + 8) :=
      hlen_append (by omega)
    have hproto : ipP (msg ++ rest) (hlen msg 0 + 8) = Ver.v4.proto msg := byte_append (by omega)
    have hwhole : Ver.v4.ip msg + 20 ≤ msg.length := by omega
    rw [hlen2]
    split
    · next hcut =>
      have : ¬Ver.v4.udp msg + 4 ≤ msg.length := by omega
      simp [this]
    · next hin =>
      have hports : Ver.v4.udp msg + 4 ≤ msg.length := by omega
      rw [hproto, ← hudp, match_append hports]
      simp [hwhole, hports]

/-- The branches of the two functions, for a message that quotes the probe. -/
theorem branches_eq (hquotes : QuotesProbe v p seq msg) :
    (if Exceeded v msg then .leave (some (-2))
      else if Unreachable v msg then
        .leave (some (if icmpCode msg (v.icmp msg) = v.unreachPort then -1
          else icmpCode msg (v.icmp msg)))
      else .again) =
    if Answers v p seq msg then .leave (some (answer v msg)) else Verdict.again := by
  have hne : v.unreach ≠ v.timxceed := by cases v <;> decide
  by_cases hexceeded : Exceeded v msg
  · have hanswers : Answers v p seq msg := ⟨.inl hexceeded, hquotes⟩
    rw [if_pos hexceeded, if_pos hanswers, answer, if_pos hexceeded.1]
  · rw [if_neg hexceeded]
    by_cases hunreach : Unreachable v msg
    · have hanswers : Answers v p seq msg := ⟨.inr hunreach, hquotes⟩
      have htype : icmpType msg (v.icmp msg) ≠ v.timxceed :=
        fun heq => hne (hunreach.symm.trans heq)
      rw [if_pos hunreach, if_pos hanswers, answer, if_neg htype]
    · have hnot : ¬Answers v p seq msg := fun h => h.1.elim hexceeded hunreach
      rw [if_neg hunreach, if_neg hnot]

/-- **What `recv_v4` makes of a message**, whatever stands behind it. -/
theorem examine4_eq : examine4 p seq (msg ++ rest) msg.length =
    if Answers .v4 p seq msg then .leave (some (answer .v4 msg)) else .again := by
  unfold examine4
  simp only [icmplen_iff]
  split
  · next hshort =>
    have hnot : ¬Answers .v4 p seq msg := by
      rintro ⟨-, hwhole, -⟩
      omega
    rw [if_neg hnot]
  · next hlong =>
    obtain ⟨hicmp, htype, hcode⟩ := @header_append .v4 msg rest (by omega)
    simp only [Ver.icmp] at hicmp htype hcode
    simp only [hicmp, htype, hcode, probed4_iff (show Ver.v4.ip msg ≤ msg.length by omega)]
    by_cases hquotes : QuotesProbe .v4 p seq msg
    · simp only [hquotes, if_true]
      exact branches_eq hquotes
    · simp [hquotes, Answers]

theorem probed6_iff (h : 8 + sizeofIp6 + 4 ≤ msg.length) :
    probed6 p seq (msg ++ rest) = true ↔ QuotesProbe .v6 p seq msg := by
  have hsize : sizeofIp6 = 40 := rfl
  have hproto : ip6Nxt (msg ++ rest) 8 = Ver.v6.proto msg := byte_append (by omega)
  have hports : Ver.v6.udp msg + 4 ≤ msg.length := h
  have hwhole : Ver.v6.ip msg + Ver.v6.sizeofIp ≤ msg.length := by
    simp only [Ver.ip, Ver.icmp, Ver.sizeofIp]
    omega
  unfold probed6 QuotesProbe
  simp only [hproto]
  rw [match_append h]
  simp only [hwhole, hports, true_and, Bool.and_eq_true, beq_iff_eq]
  exact Iff.rfl

/-- **What `recv_v6` makes of a message**, whatever stands behind it. -/
theorem examine6_eq : examine6 p seq (msg ++ rest) msg.length =
    if Stray p seq msg then .leave none
    else if Answers .v6 p seq msg then .leave (some (answer .v6 msg)) else .again := by
  have hsize : sizeofIp6 = 40 := rfl
  unfold examine6
  simp only
  split
  · next hshort =>
    have hstray : ¬Stray p seq msg := by
      rintro ⟨-, hlong, -⟩
      omega
    have hnot : ¬Answers .v6 p seq msg := by
      rintro ⟨-, hwhole, -⟩
      simp only [Ver.ip, Ver.icmp, Ver.sizeofIp] at hwhole
      omega
    rw [if_neg hstray, if_neg hnot]
  · next hlong =>
    obtain ⟨-, htype, hcode⟩ := @header_append .v6 msg rest (by simp only [Ver.ip, Ver.icmp]; omega)
    simp only [Ver.icmp] at htype hcode
    simp only [htype, hcode]
    by_cases hcut : msg.length < 8 + sizeofIp6 + 4
    · have hstray : ¬Stray p seq msg := by
        rintro ⟨-, hlong, -⟩
        omega
      have hnot : ¬Answers .v6 p seq msg := by
        rintro ⟨-, -, hports, -⟩
        simp only [Ver.udp, Ver.ip, Ver.icmp] at hports
        omega
      simp [hcut, hstray, hnot]
    · have hin : 8 + sizeofIp6 + 4 ≤ msg.length := by omega
      simp only [if_neg hcut, probed6_iff hin]
      by_cases hquotes : QuotesProbe .v6 p seq msg
      · have hstray : ¬Stray p seq msg := fun h => h.2.2 hquotes
        simp only [hquotes, if_true, if_neg hstray]
        exact branches_eq hquotes
      · have hnot : ¬Answers .v6 p seq msg := fun h => hquotes h.2
        have hexc : (icmpType msg 0 = icmp6TimeExceeded ∧ icmpCode msg 0 = icmp6TimeExceedTransit) ↔
            Stray p seq msg := ⟨fun h => ⟨h, hin, hquotes⟩, fun h => h.1⟩
        simp only [hquotes, if_false, ite_self, if_neg hnot, hexc]

end Message

/-! ### A call -/

section Call

variable {v : Ver} {p : Ports} {seq : ℕ} {alarm : Bool} {recvbuf : List UInt8} {es : List Recv}

/-- What the last message stands in front of. -/
theorem writeAt_zero (mem bs : List UInt8) : writeAt mem 0 bs = bs ++ mem.drop bs.length := by
  simp [writeAt]

/-- **`recv_v4` returns what it is to return.** -/
theorem recvV4_eq_replyOf (junk : ℤ) : ∀ (es : List Recv) (alarm : Bool) (recvbuf : List UInt8),
    (recvV4 p seq junk alarm recvbuf es).1 = replyOf .v4 p seq alarm es := by
  intro es
  induction es with
  | nil => intro alarm recvbuf; cases alarm <;> rfl
  | cons e es ih =>
    intro alarm recvbuf
    cases alarm with
    | true => rfl
    | false =>
      cases e with
      | fail => rfl
      | eintr alarm => exact ih alarm recvbuf
      | msg bs alarm =>
        simp only [recvV4, recvLoop, replyOf, writeAt_zero, examine4_eq]
        by_cases hanswers : Answers .v4 p seq bs
        · simp only [if_pos hanswers, Option.getD_some]
        · simp only [if_neg hanswers]
          exact ih alarm _

/-- `recv_v6` returns what it is to return if no stray message comes in. -/
theorem recvV6_eq_of_clean (junk : ℤ) : ∀ (es : List Recv) (alarm : Bool) (recvbuf : List UInt8),
    Clean p seq alarm es → (recvV6 p seq junk alarm recvbuf es).1 = replyOf .v6 p seq alarm es := by
  intro es
  induction es with
  | nil => intro alarm recvbuf _; cases alarm <;> rfl
  | cons e es ih =>
    intro alarm recvbuf hclean
    cases alarm with
    | true => rfl
    | false =>
      cases e with
      | fail => rfl
      | eintr alarm => exact ih alarm recvbuf hclean
      | msg bs alarm =>
        obtain ⟨hstray, hrest⟩ := hclean
        simp only [recvV6, recvLoop, replyOf, writeAt_zero, examine6_eq, if_neg hstray]
        by_cases hanswers : Answers .v6 p seq bs
        · simp only [if_pos hanswers, Option.getD_some]
        · simp only [if_neg hanswers]
          exact ih alarm _ (hrest.resolve_left hanswers)

/-- `recv_v6` returns what happens to be in `ret` if a stray message comes in. -/
theorem recvV6_eq_of_not_clean (junk : ℤ) :
    ∀ (es : List Recv) (alarm : Bool) (recvbuf : List UInt8),
    ¬Clean p seq alarm es → (recvV6 p seq junk alarm recvbuf es).1 = .ret junk := by
  intro es
  induction es with
  | nil => intro alarm recvbuf h; cases alarm <;> exact absurd trivial h
  | cons e es ih =>
    intro alarm recvbuf hclean
    cases alarm with
    | true => exact absurd trivial hclean
    | false =>
      cases e with
      | fail => exact absurd trivial hclean
      | eintr alarm => exact ih alarm recvbuf hclean
      | msg bs alarm =>
        simp only [recvV6, recvLoop, writeAt_zero, examine6_eq]
        by_cases hstray : Stray p seq bs
        · simp only [if_pos hstray, Option.getD_none]
        · have hrest : ¬(Answers .v6 p seq bs ∨ Clean p seq alarm es) := fun h => hclean ⟨hstray, h⟩
          rw [not_or] at hrest
          simp only [if_neg hstray, if_neg hrest.1]
          exact ih alarm _ hrest.2

/-- A call returns what it is to return if `recv_v6` is not misled. -/
theorem recv_eq_of_clean (hclean : v = .v6 → Clean p seq alarm es) (junk : ℤ) :
    (recv v p seq junk alarm recvbuf es).1 = replyOf v p seq alarm es := by
  cases v with
  | v4 => exact recvV4_eq_replyOf junk es alarm recvbuf
  | v6 => exact recvV6_eq_of_clean junk es alarm recvbuf (hclean rfl)

/-- A message answers one probe only. -/
theorem answers_unique {seq' : ℕ} {msg : List UInt8} (hseq : seq < 65536) (hseq' : seq' < 65536)
    (h : Answers v p seq msg) (h' : Answers v p seq' msg) : seq = seq' := by
  have hport : p.dportOf seq = p.dportOf seq' := by
    have hm := h.2.2.2.2
    have hm' := h'.2.2.2.2
    simp only [Ports.match, Bool.and_eq_true, beq_iff_eq] at hm hm'
    exact hm.2.symm.trans hm'.2
  unfold Ports.dportOf at hport
  omega

/-- **Which calls return what they are to return**, whatever `recvbuf` holds and whatever
happens to be in `ret`; and no message answers two probes of a run. -/
theorem recv_eq_replyOf_iff (v : Ver) (p : Ports) (seq : ℕ) (alarm : Bool) (recvbuf : List UInt8)
    (es : List Recv) :
    ((∀ junk, (recv v p seq junk alarm recvbuf es).1 = replyOf v p seq alarm es) ↔
      (v = .v6 → Clean p seq alarm es)) ∧
    ∀ seq' msg, seq < 65536 → seq' < 65536 → Answers v p seq msg → Answers v p seq' msg →
      seq = seq' := by
  refine ⟨⟨?_, recv_eq_of_clean⟩, fun seq' msg hseq hseq' h h' => answers_unique hseq hseq' h h'⟩
  rintro h rfl
  by_contra hclean
  have hzero := (recvV6_eq_of_not_clean 0 es alarm recvbuf hclean).symm.trans (h 0)
  have hone := (recvV6_eq_of_not_clean 1 es alarm recvbuf hclean).symm.trans (h 1)
  have := hzero.trans hone.symm
  simp at this

/-- The message of a router that answers the first probe from the port 40000. -/
def lateReply : List UInt8 :=
  [3, 0, 0, 0, 0, 0, 0, 0] ++ 0x60 :: List.replicate 5 0 ++ 17 :: List.replicate 33 0 ++
    [0x9c, 0x40, 0x82, 0x9b]

/-- **A late reply to the first probe ends the wait for the reply to the second**, with
whatever happens to be in `ret`, where the call is to wait on. -/
theorem late_reply_returned :
    Answers .v6 ⟨40000, 33434⟩ 1 lateReply ∧
    ∀ junk, (recv .v6 ⟨40000, 33434⟩ 2 junk false (List.replicate 1500 0)
        [.msg lateReply false]).1 = .ret junk ∧
      replyOf .v6 ⟨40000, 33434⟩ 2 false [.msg lateReply false] = .waiting := by
  refine ⟨by decide, fun junk => ⟨?_, by decide⟩⟩
  refine recvV6_eq_of_not_clean junk _ _ _ ?_
  intro hclean
  exact hclean.1 (by decide)

end Call

/-! ### The probes of a run -/

/-- What happens while the reply to a probe is waited for. -/
structure Wait where
  junk : ℤ
  alarm : Bool
  es : List Recv

/-- A probe, what happened then, and what has been returned. -/
structure Entry where
  seq : ℕ
  wait : Wait
  code : ℤ

/-- The variables of `traceloop`, between two probes. -/
structure Trace where
  ttl : ℕ
  probe : ℕ
  seq : ℕ
  done : ℕ
  recvbuf : List UInt8
  log : List Entry

/-- `traceloop` enters its loops. -/
def Trace.init (recvbuf : List UInt8) : Trace := ⟨1, 0, 0, 0, recvbuf, []⟩

/-- The rest of the inner loop, and the increments of the two loops. -/
def Trace.next (s : Trace) (nprobes : ℕ) (w : Wait) (code : ℤ) (recvbuf : List UInt8) : Trace :=
  { ttl := if s.probe + 1 < nprobes then s.ttl else s.ttl + 1
    probe := if s.probe + 1 < nprobes then s.probe + 1 else 0
    seq := s.seq + 1
    done := if code = -1 then s.done + 1 else s.done
    recvbuf
    log := s.log ++ [⟨s.seq + 1, w, code⟩] }

section Trace

variable (v : Ver) (p : Ports) (maxTtl nprobes : ℕ)

/-- One probe of `traceloop`.  Whether it is done is tested between the hop limits only. -/
def step (s : Trace) (w : Wait) : Option Trace :=
  if s.probe < nprobes ∧ s.ttl ≤ maxTtl ∧ (s.probe = 0 → s.done = 0) then
    match recv v p (s.seq + 1) w.junk w.alarm s.recvbuf w.es with
    | (.ret code, recvbuf) => some (s.next nprobes w code recvbuf)
    | _ => none
  else none

/-- No stray message comes in while the reply is waited for. -/
def CleanWait (s : Trace) (w : Wait) : Prop := v = .v6 → Clean p (s.seq + 1) w.alarm w.es

/-- What is true between two probes. -/
structure Inv (s : Trace) : Prop where
  seq_eq : s.seq + nprobes = s.ttl * nprobes + s.probe
  seqs : s.log.map Entry.seq = List.range' 1 s.seq
  seq_le : s.seq ≤ maxTtl * nprobes
  replies : ∀ e ∈ s.log, replyOf v p e.seq e.wait.alarm e.wait.es = .ret e.code

variable {v p maxTtl nprobes}

theorem inv_init (recvbuf : List UInt8) : Inv v p maxTtl nprobes (Trace.init recvbuf) where
  seq_eq := by
    simp only [Trace.init]
    omega
  seqs := rfl
  seq_le := Nat.zero_le _
  replies := by intro e he; cases he

theorem Inv.step {s s' : Trace} {w : Wait} (h : Inv v p maxTtl nprobes s)
    (hclean : CleanWait v p s w) (hs : Traceroute.step v p maxTtl nprobes s w = some s') :
    Inv v p maxTtl nprobes s' := by
  unfold Traceroute.step at hs
  split at hs
  · next hrun =>
    obtain ⟨hprobe, httl, -⟩ := hrun
    split at hs
    · next code recvbuf hrecv =>
      rw [Option.some.injEq] at hs
      subst hs
      have heq := h.seq_eq
      have hreply : replyOf v p (s.seq + 1) w.alarm w.es = .ret code := by
        rw [← recv_eq_of_clean hclean w.junk, hrecv]
      refine ⟨?_, ?_, ?_, ?_⟩
      · simp only [Trace.next]
        split
        · omega
        · rw [Nat.succ_mul]
          omega
      · simp only [Trace.next, List.map_append, List.map_cons, List.map_nil, h.seqs]
        rw [List.range'_1_concat, Nat.add_comm 1]
      · have hle : s.ttl * nprobes ≤ maxTtl * nprobes := Nat.mul_le_mul_right nprobes httl
        simp only [Trace.next]
        omega
      · intro e he
        rcases List.mem_append.mp he with hold | hnew
        · exact h.replies e hold
        · rw [List.mem_singleton.mp hnew]
          exact hreply
    · cases hs
  · cases hs

/-- **The replies of a run are attributed to their probes** if no stray message comes in:
the probes are numbered from one on, each of them has got its reply, and with fewer than
65536 probes no message is the reply to two of them. -/
theorem trace_attributes {recvbuf : List UInt8} {ws : List Wait} {s : Trace}
    (hclean : Along (step v p maxTtl nprobes) (CleanWait v p) (Trace.init recvbuf) ws)
    (hrun : exec (step v p maxTtl nprobes) (Trace.init recvbuf) ws = some s) :
    s.log.map Entry.seq = List.range' 1 s.seq ∧
    (∀ e ∈ s.log, replyOf v p e.seq e.wait.alarm e.wait.es = .ret e.code) ∧
    (maxTtl * nprobes < 65536 → ∀ e ∈ s.log, ∀ e' ∈ s.log, ∀ msg, Answers v p e.seq msg →
      Answers v p e'.seq msg → e.seq = e'.seq) := by
  have h := exec_invariant_along (I := Inv v p maxTtl nprobes)
    (fun _ _ _ h hw hs => h.step hw hs) ws _ s (inv_init recvbuf) hclean hrun
  have hlt : ∀ e ∈ s.log, e.seq ≤ maxTtl * nprobes := by
    intro e he
    have hmem : e.seq ∈ s.log.map Entry.seq := List.mem_map_of_mem he
    rw [h.seqs, List.mem_range'_1] at hmem
    have := h.seq_le
    omega
  refine ⟨h.seqs, h.replies, ?_⟩
  intro hfew e he e' he' msg hans hans'
  have hle := hlt e he
  have hle' := hlt e' he'
  exact answers_unique (by omega) (by omega) hans hans'

/-- The first router says that the hop limit of the first probe has been exceeded. -/
def firstHop : List UInt8 :=
  [0x45] ++ List.replicate 19 0 ++ [11] ++ List.replicate 7 0 ++ [0x45] ++ List.replicate 8 0 ++
    [17] ++ List.replicate 10 0 ++ [0x80, 0, 0x82, 0x9b]

theorem trace_attributes_firstHop :
    ∃ s, exec (step .v4 ⟨0x8000, 0x829a⟩ 30 3) (Trace.init []) [⟨0, false, [.msg firstHop false]⟩] =
      some s ∧ s.log.map Entry.code = [-2] ∧
      ∀ e ∈ s.log, replyOf .v4 ⟨0x8000, 0x829a⟩ e.seq e.wait.alarm e.wait.es = .ret e.code :=
  ⟨_, rfl, rfl, (@trace_attributes .v4 ⟨0x8000, 0x829a⟩ 30 3 []
    [⟨0, false, [.msg firstHop false]⟩] _ ⟨nofun, fun _ _ => trivial⟩ rfl).2.1⟩

end Trace

end Traceroute

end TcpIp.Icmp
