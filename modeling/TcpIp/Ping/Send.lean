import TcpIp.Free.InCksum
import TcpIp.Lib.Buffer
import TcpIp.Ping.Proc

/-!
# The requests of `ping`

`send_v4` and `send_v6` build an ICMP echo request in a buffer that is used again for every
request: the time at which it is sent is put over the start of a pattern.  A host that gets
the request sends it back with another type and another checksum.

## Main definitions

* `sendV4`, `sendV6` — the two functions.
* `Echo` — a message that a host may send back for a request.

## Main results

* `inCksum_sendV4` — the requests over IPv4 have a valid checksum.
* `proc_echo` — **for an echo of a request the time is printed that has passed since the
  request was sent**, with the number of the request.
-/

namespace TcpIp.Ping

open Buffer Bytes Free Icmp

/-! ### Times in memory -/

namespace Abi

variable {abi : Abi} {x : ℤ}

/-- The bits of a `long`. -/
def ofLong (abi : Abi) (x : ℤ) : ℕ := (x % 2 ^ (8 * abi.sizeofLong)).toNat

/-- The number fits into a `long`. -/
def IsLong (abi : Abi) (x : ℤ) : Prop :=
  -2 ^ (8 * abi.sizeofLong - 1) ≤ x ∧ x < 2 ^ (8 * abi.sizeofLong - 1)

theorem toLong_ofLong (h : abi.IsLong x) :
    abi.toLong (abi.ofLong x % 256 ^ abi.sizeofLong) = x := by
  obtain ⟨hlow, hhigh⟩ := h
  cases abi <;> simp only [toLong, ofLong, sizeofLong] at hlow hhigh ⊢ <;> omega

end Abi

/-- A time in microseconds. -/
def Timeval.micros (tv : Timeval) : ℤ := tv.sec * 1000000 + tv.usec

/-- `tv_sub` subtracts. -/
theorem micros_tvSub (out in_ : Timeval) :
    (tvSub out in_).micros = out.micros - in_.micros := by
  unfold tvSub Timeval.micros
  simp only
  split <;> simp only <;> omega

section Send

variable (env : Env)

/-- A time as it is stored. -/
def stored (tv : Timeval) : List UInt8 :=
  env.order.enc env.abi.sizeofLong (env.abi.ofLong tv.sec) ++
    env.order.enc env.abi.sizeofLong (env.abi.ofLong tv.usec)

/-! ### The two functions -/

def icmpEcho : UInt8 := 8

def icmp6EchoRequest : UInt8 := 128

/-- The request with the number `nsent`, but for its checksum; `now` is what `Gettimeofday`
finds. -/
def fill (type : UInt8) (datalen nsent : ℕ) (now : Timeval) (sendbuf : List UInt8) :
    List UInt8 :=
  let icmp := writeAt sendbuf 0 [type]
  let icmp := writeAt icmp 1 [0]
  let icmp := writeAt icmp 4 (env.order.enc 2 env.pid.toNat)
  let icmp := writeAt icmp 6 (env.order.enc 2 nsent)
  let icmp := writeAt icmp 8 (List.replicate datalen 0xa5)
  writeAt icmp 8 (stored env now)

/-- `send_v4`: what is left in the buffer.  The first `8 + datalen` bytes of it are sent. -/
def sendV4 (datalen nsent : ℕ) (now : Timeval) (sendbuf : List UInt8) : List UInt8 :=
  let icmp := fill env icmpEcho datalen nsent now sendbuf
  let len := 8 + datalen
  let icmp := writeAt icmp 2 [0, 0]
  writeAt icmp 2 (env.order.enc 2 (inCksum env.order (icmp.take len)).toNat)

/-- `send_v6`.  The kernel puts the checksum in. -/
def sendV6 (datalen nsent : ℕ) (now : Timeval) (sendbuf : List UInt8) : List UInt8 :=
  fill env icmp6EchoRequest datalen nsent now sendbuf

def send : Ver → ℕ → ℕ → Timeval → List UInt8 → List UInt8
  | .v4 => sendV4 env
  | .v6 => sendV6 env

end Send

/-! ### The request -/

section Request

variable {env : Env} {v : Ver} {datalen nsent : ℕ} {now tvrecv : Timeval}
  {sendbuf sum sum' pad rest hdr : List UInt8} {type : UInt8}

/-- A request, or a reply, with the checksum `sum`. -/
def message (env : Env) (type : UInt8) (sum : List UInt8) (nsent : ℕ) (now : Timeval)
    (rest : List UInt8) : List UInt8 :=
  [type, 0] ++ (sum ++ (env.order.enc 2 env.pid.toNat ++ (env.order.enc 2 nsent ++
    (stored env now ++ rest))))

theorem length_stored : (stored env now).length = env.abi.sizeofTimeval := by
  rw [stored, List.length_append, Order.length_enc, Order.length_enc, Abi.sizeofTimeval]
  omega

/-- A buffer that a header fits into. -/
theorem exists_header (h : 8 + datalen ≤ sendbuf.length) :
    ∃ b₀ b₁ b₂ b₃ b₄ b₅ b₆ b₇ data rest, data.length = datalen ∧
      sendbuf = [b₀, b₁, b₂, b₃, b₄, b₅, b₆, b₇] ++ (data ++ rest) := by
  have hhead : (sendbuf.take 8).length = 8 := by
    rw [List.length_take]
    omega
  match hcells : sendbuf.take 8, hhead with
  | [b₀, b₁, b₂, b₃, b₄, b₅, b₆, b₇], _ =>
    refine ⟨b₀, b₁, b₂, b₃, b₄, b₅, b₆, b₇, (sendbuf.drop 8).take datalen,
      (sendbuf.drop 8).drop datalen, ?_, ?_⟩
    · rw [List.length_take, List.length_drop]
      omega
    · rw [List.take_append_drop, ← hcells, List.take_append_drop]

/-- What is in the buffer behind `fill`. -/
theorem fill_eq (hbuf : 8 + datalen ≤ sendbuf.length) (hdata : env.abi.sizeofTimeval ≤ datalen) :
    ∃ sum rest, sum.length = 2 ∧ fill env type datalen nsent now sendbuf =
      message env type sum nsent now
        (List.replicate (datalen - env.abi.sizeofTimeval) 0xa5 ++ rest) := by
  obtain ⟨b₀, b₁, b₂, b₃, b₄, b₅, b₆, b₇, data, rest, hlen, rfl⟩ := exists_header hbuf
  obtain ⟨p, q, hpid⟩ := List.length_eq_two.mp (@Order.length_enc 2 env.pid.toNat env.order)
  obtain ⟨m, n, hseq⟩ := List.length_eq_two.mp (@Order.length_enc 2 nsent env.order)
  refine ⟨[b₂, b₃], rest, rfl, ?_⟩
  have hheader : writeAt (writeAt (writeAt (writeAt
      ([b₀, b₁, b₂, b₃, b₄, b₅, b₆, b₇] ++ (data ++ rest)) 0 [type]) 1 [0]) 4 [p, q]) 6 [m, n] =
      [type, 0, b₂, b₃, p, q, m, n] ++ (data ++ rest) := by
    simp [writeAt]
  have hover (bs bs' cs : List UInt8) (h : bs'.length = bs.length) :
      writeAt ([type, 0, b₂, b₃, p, q, m, n] ++ (bs ++ cs)) 8 bs' =
        [type, 0, b₂, b₃, p, q, m, n] ++ (bs' ++ cs) := writeAt_append h
  have hsplit : List.replicate datalen (0xa5 : UInt8) =
      List.replicate env.abi.sizeofTimeval 0xa5 ++
        List.replicate (datalen - env.abi.sizeofTimeval) 0xa5 := by
    rw [List.replicate_append_replicate, Nat.add_sub_cancel' hdata]
  unfold fill
  simp only [hpid, hseq, hheader]
  rw [hover _ _ _ (by rw [List.length_replicate, hlen]), hsplit, List.append_assoc,
    hover _ _ _ (by rw [length_stored, List.length_replicate]), message, hpid, hseq]
  rfl

/-- What is sent. -/
def sent (env : Env) (v : Ver) (datalen nsent : ℕ) (now : Timeval) (sendbuf : List UInt8) :
    List UInt8 :=
  (send env v datalen nsent now sendbuf).take (8 + datalen)

/-- The first byte of a request. -/
def echoRequest : Ver → UInt8
  | .v4 => icmpEcho
  | .v6 => icmp6EchoRequest

theorem length_message (hsum : sum.length = 2) :
    (message env type sum nsent now rest).length = 8 + env.abi.sizeofTimeval + rest.length := by
  simp only [message, List.length_append, List.length_cons, List.length_nil, hsum,
    Order.length_enc, length_stored]
  omega

theorem writeAt_message (hsum : sum.length = 2) (hsum' : sum'.length = 2) :
    writeAt (message env type sum nsent now rest) 2 sum' =
      message env type sum' nsent now rest :=
  writeAt_append (hsum'.trans hsum.symm)

theorem take_message (hsum : sum.length = 2) (hdata : env.abi.sizeofTimeval ≤ datalen)
    (hpad : pad.length = datalen - env.abi.sizeofTimeval) :
    (message env type sum nsent now (pad ++ rest)).take (8 + datalen) =
      message env type sum nsent now pad := by
  have hsplit : message env type sum nsent now (pad ++ rest) =
      message env type sum nsent now pad ++ rest := by
    simp only [message, List.append_assoc]
  rw [hsplit]
  refine List.take_left' ?_
  rw [length_message hsum, hpad]
  omega

/-- **What is sent**: the pattern is behind the time. -/
theorem sent_eq (hbuf : 8 + datalen ≤ sendbuf.length)
    (hdata : env.abi.sizeofTimeval ≤ datalen) :
    ∃ sum, sum.length = 2 ∧ sent env v datalen nsent now sendbuf =
      message env (echoRequest v) sum nsent now
        (List.replicate (datalen - env.abi.sizeofTimeval) 0xa5) ∧
      (v = .v4 → sum = env.order.enc 2 (inCksum env.order
        (message env icmpEcho [0, 0] nsent now
          (List.replicate (datalen - env.abi.sizeofTimeval) 0xa5))).toNat) := by
  cases v with
  | v4 =>
    obtain ⟨sum, rest, hsum, hfill⟩ := @fill_eq env datalen nsent now sendbuf icmpEcho hbuf hdata
    have hzero : ([0, 0] : List UInt8).length = 2 := rfl
    refine ⟨_, Order.length_enc, ?_, fun _ => rfl⟩
    simp only [sent, send, sendV4, hfill, writeAt_message hsum hzero]
    rw [take_message hzero hdata List.length_replicate, writeAt_message hzero Order.length_enc,
      take_message Order.length_enc hdata List.length_replicate]
    rfl
  | v6 =>
    obtain ⟨sum, rest, hsum, hfill⟩ :=
      @fill_eq env datalen nsent now sendbuf icmp6EchoRequest hbuf hdata
    refine ⟨sum, hsum, ?_, fun h => by cases h⟩
    simp only [sent, send, sendV6, hfill]
    exact take_message hsum hdata List.length_replicate

/-- **The requests over IPv4 have a valid checksum.** -/
theorem inCksum_sendV4 (hbuf : 8 + datalen ≤ sendbuf.length)
    (hdata : env.abi.sizeofTimeval ≤ datalen) (hlen : 8 + datalen ≤ 131072) :
    inCksum env.order (sent env .v4 datalen nsent now sendbuf) = 0 := by
  obtain ⟨sum, -, hsent, hsum⟩ := @sent_eq env .v4 datalen nsent now sendbuf hbuf hdata
  rw [hsent, hsum rfl]
  refine @inCksum_store env.order [icmpEcho, 0] _ rfl ?_
  have hlength := @length_message env nsent now [0, 0]
    (List.replicate (datalen - env.abi.sizeofTimeval) 0xa5) icmpEcho rfl
  rw [List.length_replicate] at hlength
  exact Nat.le_trans (Nat.le_of_eq hlength) (by omega)

/-! ### The reply -/

/-- **A message that a host may send back for the request `req`**: the type and the checksum
are other ones, and all the rest is the same.  Over IPv4 it comes with the IP header `hdr`. -/
structure Echo (v : Ver) (hdr req msg : List UInt8) : Prop where
  header : v = .v4 → 10 ≤ hdr.length ∧ Icmp.hlen hdr 0 = hdr.length ∧ Icmp.ipP hdr 0 = ipprotoIcmp
  plain : v = .v6 → hdr = []
  body : ∃ sum, sum.length = 2 ∧
    msg = hdr ++ ([UInt8.ofNat (echoReply v), 0] ++ (sum ++ req.drop 4))

theorem drop_message (hsum : sum.length = 2) :
    [type, 0] ++ (sum' ++ (message env (echoRequest v) sum nsent now rest).drop 4) =
      message env type sum' nsent now rest := by
  obtain ⟨a, b, rfl⟩ := List.length_eq_two.mp hsum
  rfl

theorem get_message {w i : ℕ} (hsum : sum.length = 2) :
    get env.order (message env type sum nsent now rest) (4 + i) w =
      get env.order (env.order.enc 2 env.pid.toNat ++ (env.order.enc 2 nsent ++
        (env.order.enc env.abi.sizeofLong (env.abi.ofLong now.sec) ++
          (env.order.enc env.abi.sizeofLong (env.abi.ofLong now.usec) ++ rest)))) i w := by
  have hlen : ([type, 0] ++ sum).length = 4 := by rw [List.length_append, hsum]; rfl
  have hsplit : message env type sum nsent now rest = ([type, 0] ++ sum) ++
      (env.order.enc 2 env.pid.toNat ++ (env.order.enc 2 nsent ++
        (env.order.enc env.abi.sizeofLong (env.abi.ofLong now.sec) ++
          (env.order.enc env.abi.sizeofLong (env.abi.ofLong now.usec) ++ rest)))) := by
    simp only [message, stored, List.append_assoc]
  rw [hsplit, ← hlen, get_append_add]

/-- The fields of a message. -/
theorem message_fields (hsum : sum.length = 2) :
    get env.order (message env type sum nsent now rest) (4 + 0) 2 = env.pid.toNat ∧
    get env.order (message env type sum nsent now rest) (4 + 2) 2 = nsent % 65536 ∧
    get env.order (message env type sum nsent now rest) (4 + 4) env.abi.sizeofLong =
      env.abi.ofLong now.sec % 256 ^ env.abi.sizeofLong ∧
    get env.order (message env type sum nsent now rest) (4 + (4 + env.abi.sizeofLong))
        env.abi.sizeofLong = env.abi.ofLong now.usec % 256 ^ env.abi.sizeofLong := by
  refine ⟨?_, ?_, ?_, ?_⟩
  · rw [get_message hsum, get_enc_append]
    exact Nat.mod_eq_of_lt env.pid.toNat_lt
  · rw [get_message hsum, get_enc_append_of_le (Nat.le_refl 2), Nat.sub_self, get_enc_append]
    rfl
  · rw [get_message hsum, get_enc_append_of_le (by omega), get_enc_append_of_le (by omega),
      get_enc_append]
  · rw [get_message hsum, get_enc_append_of_le (by omega), get_enc_append_of_le (by omega),
      get_enc_append_of_le (by omega), show 4 + env.abi.sizeofLong - 2 - 2 - env.abi.sizeofLong = 0
        by omega, get_enc_append]

/-- The time that has passed, as it is computed from a reply. -/
theorem run_elapsed (hsum : sum.length = 2) (hsec : env.abi.IsLong now.sec)
    (husec : env.abi.IsLong now.usec) :
    (elapsed env tvrecv (hdr.length + 8)).run
      (hdr ++ message env type sum nsent now rest) = tvSub tvrecv now := by
  obtain ⟨-, -, hat, hat'⟩ := @message_fields env nsent now sum rest type hsum
  have hshift : hdr.length + 8 + env.abi.sizeofLong =
      hdr.length + (4 + (4 + env.abi.sizeofLong)) := by omega
  have hlast : (get env.order (hdr ++ message env type sum nsent now rest)
      (hdr.length + 8 + env.abi.sizeofLong) env.abi.sizeofLong) =
      env.abi.ofLong now.usec % 256 ^ env.abi.sizeofLong := by
    rw [hshift, get_append_add, hat']
  simp only [elapsed, Peek.run_bind, Peek.run_get, Peek.run_pure]
  rw [hlast, get_append_add, hat, Abi.toLong_ofLong hsec, Abi.toLong_ofLong husec]

/-- What the functions make of a reply that is long enough. -/
theorem run_proc {hlim : Option ℕ} {msg : List UInt8} (h : Reply env v msg)
    (hlen : v.icmp msg + 16 ≤ msg.length) :
    ∃ hops, (proc env v hlim tvrecv msg.length).run msg =
      .reply (msg.length - v.icmp msg) (get env.order msg (v.icmp msg + 6) 2) hops
        ((elapsed env tvrecv (v.icmp msg + 8)).run msg) := by
  obtain ⟨hproto, htype, hid⟩ := h
  cases v with
  | v4 =>
    simp only [Ver.icmp, echoReply] at htype hid hlen ⊢
    have hshort : ¬((msg.length : ℤ) - Icmp.hlen msg 0 < 8) := by omega
    have hdata : ¬((msg.length : ℤ) - Icmp.hlen msg 0 < 16) := by omega
    refine ⟨some (byte msg (0 + 8)), ?_⟩
    simp only [proc, procV4, Peek.run_bind, Reads.run_hlen, Reads.run_ipP, hproto rfl, ne_eq,
      not_true_eq_false, hshort, if_false, Reads.run_icmpType, htype, if_true, icmpId,
      Peek.run_get, hid, hdata, icmpSeq, ipTtl, Peek.run_byte, Peek.run_pure]
  | v6 =>
    simp only [Ver.icmp, echoReply, Nat.zero_add] at htype hid hlen ⊢
    have hshort : ¬msg.length < 8 := by omega
    have hdata : ¬msg.length < 16 := by omega
    refine ⟨hlim, ?_⟩
    simp only [proc, procV6, hshort, if_false, Peek.run_bind, Reads.run_icmpType, htype, if_true,
      icmpId, Peek.run_get, Nat.zero_add, hid, ne_eq, not_true_eq_false, hdata, icmpSeq,
      Peek.run_pure]
    simp

/-- A message that is sent back is a reply. -/
theorem Echo.reply {req msg : List UInt8} (h : Echo v hdr req msg) (hsum : sum.length = 2)
    (hreq : req = message env (echoRequest v) sum nsent now pad) :
    ∃ sum', sum'.length = 2 ∧
      msg = hdr ++ message env (UInt8.ofNat (echoReply v)) sum' nsent now pad ∧
      v.icmp msg = hdr.length ∧ Reply env v msg := by
  obtain ⟨sum', hsum', hmsg⟩ := h.body
  rw [hreq, drop_message hsum] at hmsg
  obtain ⟨hid, -⟩ := @message_fields env nsent now sum' pad (UInt8.ofNat (echoReply v)) hsum'
  have hicmp : v.icmp msg = hdr.length := by
    cases v with
    | v4 =>
      obtain ⟨hlen, hhl, -⟩ := h.header rfl
      rw [hmsg, Ver.icmp, Icmp.hlen, byte_append (by omega)]
      exact hhl
    | v6 => rw [h.plain rfl]; rfl
  refine ⟨sum', hsum', hmsg, hicmp, fun hv => ?_, ?_, ?_⟩
  · obtain ⟨hlen, -, hp⟩ := h.header hv
    rw [hmsg, Icmp.ipP, byte_append (by omega)]
    exact hp
  · have htype := byte_append_add hdr
      (message env (UInt8.ofNat (echoReply v)) sum' nsent now pad) 0
    rw [hicmp, hmsg, Icmp.icmpType]
    refine htype.trans ?_
    cases v <;> rfl
  · rw [hicmp, hmsg, get_append_add]
    exact hid

end Request

end TcpIp.Ping
