import Mathlib.Algebra.Group.Int.Defs
import Mathlib.Algebra.Group.Nat.Defs
import TcpIp.Lib.Buffer
import TcpIp.Lib.Run

/-!
# Messages that arrive in parts

An SCTP message may be handed to the reader in fragments; the last one has the flag `MSG_EOR`.
`pdapi_recvmsg` puts them together in a buffer that is kept from one call to the next.  When less
than 1024 bytes are free it enlarges the buffer by 65535 bytes.

The size of the buffer is an `int`.  The largest size that it can have is 32768 times 65535, and
what comes then is an overflow.  A message may be longer than that.

## Main definitions

* `State`, `step` — the function and its static variables, called again and again.
* `Reassembled` — what the calls should have done.
* `Short` — all but the last of the fragments fit, and leave 1024 bytes free.

## Main results

* `rest_spec` — what the loop of one call does.
* `reassembled_iff` — the calls do what they should **exactly if** all messages are short.
-/

namespace TcpIp.Sctp

open Buffer Run

/-- `SCTP_PDAPI_INCR_SZ` -/
def incrSz : ℕ := 65535

/-- `SCTP_PDAPI_NEED_MORE_THRESHOLD` -/
def needMoreThreshold : ℕ := 1024

/-- The largest `int`. -/
def intMax : ℤ := 2 ^ 31 - 1

/-- A call of `sctp_recvmsg`. -/
structure Recv where
  /-- Where the fragment is stored. -/
  offset : ℕ
  /-- How much is asked for. -/
  capacity : ℤ
  /-- The size that is allocated. -/
  alloc : ℕ
  deriving DecidableEq, Repr

/-- What a call of `pdapi_recvmsg` has returned. -/
structure Ret where
  rdlen : ℤ
  /-- The first `rdlen` bytes of the buffer; `none` for `NULL`. -/
  data : Option (List UInt8)
  deriving DecidableEq, Repr

/-- The buffer while a message is received. -/
structure Buf where
  mem : List UInt8
  /-- `sctp_pdapi_rdbuf_sz` -/
  rdbufSz : ℤ
  atInBuf : ℕ
  recvs : List Recv
  deriving DecidableEq, Repr

/-- The static variables, and what has been done. -/
structure State where
  /-- `sctp_pdapi_readbuf` -/
  readbuf : Option (List UInt8)
  /-- `sctp_pdapi_rdbuf_sz` -/
  rdbufSz : ℤ
  recvs : List Recv
  returned : List Ret
  /-- The size has become too large for an `int`. -/
  overflow : Bool
  deriving DecidableEq, Repr

def init : State := ⟨none, 0, [], [], false⟩

section Function

-- what the memory holds that `malloc` and `realloc` find
variable (junk : UInt8)

/-- The first half of the loop body; `none` if the size overflows. -/
def enlarge (b : Buf) : Option Buf :=
  let left := b.rdbufSz - b.atInBuf
  if left < needMoreThreshold then
    if intMax < b.rdbufSz + incrSz then none
    else some { b with
      mem := b.mem ++ List.replicate incrSz junk
      rdbufSz := b.rdbufSz + incrSz }
  else some b

/-- `Sctp_recvmsg` for a fragment; `none` if there is no room for it. -/
def receive (b : Buf) (frag : List UInt8) : Option Buf :=
  let left := b.rdbufSz - b.atInBuf
  if frag.length ≤ left then
    some { b with
      mem := writeAt b.mem b.atInBuf frag
      atInBuf := b.atInBuf + frag.length
      recvs := b.recvs ++ [⟨b.atInBuf, left, b.mem.length⟩] }
  else none

/-- The loop, over the fragments that are still to come; `true` if the size overflows. -/
def rest : List (List UInt8) → Buf → Option (Buf × Bool)
  | [], b => some (b, false)
  | frag :: frags, b =>
    match enlarge junk b with
    | none => some (b, true)
    | some b => (receive b frag).bind (rest frags)

/-- The buffer at the start of a call. -/
def open_ (s : State) : Buf :=
  match s.readbuf with
  | none => ⟨List.replicate incrSz junk, incrSz, 0, s.recvs⟩
  | some mem => ⟨mem, s.rdbufSz, 0, s.recvs⟩

/-- The end of a call. -/
def close (s : State) (b : Buf) (ret : Ret) : State :=
  { s with
    readbuf := some b.mem
    rdbufSz := b.rdbufSz
    recvs := b.recvs
    returned := s.returned ++ [ret] }

/-- `pdapi_recvmsg` for a message that comes in these fragments.  Once the size has overflowed
nothing more is said of the program. -/
def step (s : State) : List (List UInt8) → Option State
  | [] => none
  | frag :: frags =>
    if s.overflow then some s
    else
      (receive (open_ junk s) frag).bind fun b =>
        if b.atInBuf < 1 then some (close s b ⟨b.atInBuf, none⟩)
        else
          (rest junk frags b).map fun r =>
            if r.2 then { s with overflow := true }
            else close s r.1 ⟨r.1.atInBuf, some (r.1.mem.take r.1.atInBuf)⟩

end Function

/-! ### Sizes -/

/-- The largest size of the buffer that is an `int`. -/
def largest : ℕ := 32768 * incrSz

/-- The size that is kept is the size allocated, a multiple of the increment, and an `int`. -/
structure Sized (mem : List UInt8) (rdbufSz : ℤ) : Prop where
  size_eq : rdbufSz = mem.length
  pos : incrSz ≤ mem.length
  dvd : incrSz ∣ mem.length
  le : mem.length ≤ largest

/-- Every receive has had room for 1024 bytes, up to the end of the buffer, which has never become
smaller. -/
structure Logged (recvs : List Recv) (alloc : ℕ) : Prop where
  room : ∀ r ∈ recvs, needMoreThreshold ≤ r.capacity ∧ r.offset + r.capacity = r.alloc
  le : ∀ r ∈ recvs, r.alloc ≤ alloc
  grows : recvs.Pairwise fun r r' => r.alloc ≤ r'.alloc

/-- What holds while a message is received. -/
structure Ready (b : Buf) : Prop where
  sized : Sized b.mem b.rdbufSz
  at_le : b.atInBuf ≤ b.mem.length
  logged : Logged b.recvs b.mem.length

section Loop

variable {junk : UInt8} {b b' : Buf} {frag : List UInt8} {frags : List (List UInt8)}
  {mem : List UInt8} {sz : ℤ} {recvs : List Recv} {alloc alloc' : ℕ}

theorem logged_nil (alloc : ℕ) : Logged [] alloc :=
  ⟨fun _ hr => absurd hr List.not_mem_nil, fun _ hr => absurd hr List.not_mem_nil, .nil⟩

theorem Logged.mono (h : Logged recvs alloc) (hle : alloc ≤ alloc') : Logged recvs alloc' :=
  ⟨h.room, fun r hr => Nat.le_trans (h.le r hr) hle, h.grows⟩

theorem Logged.append (h : Logged recvs alloc) {offset : ℕ} {capacity : ℤ}
    (hroom : needMoreThreshold ≤ capacity) (hend : offset + capacity = alloc) :
    Logged (recvs ++ [⟨offset, capacity, alloc⟩]) alloc := by
  refine ⟨?_, ?_, ?_⟩
  · intro r hr
    rcases List.mem_append.mp hr with hr | hr
    · exact h.room r hr
    · rw [List.mem_singleton.mp hr]
      exact ⟨hroom, hend⟩
  · intro r hr
    rcases List.mem_append.mp hr with hr | hr
    · exact h.le r hr
    · obtain rfl := List.mem_singleton.mp hr
      exact Nat.le_refl _
  · rw [List.pairwise_append]
    refine ⟨h.grows, List.pairwise_singleton _ _, ?_⟩
    intro r hr r' hr'
    rw [List.mem_singleton.mp hr']
    exact h.le r hr

theorem sized_fresh : Sized (List.replicate incrSz junk) incrSz := by
  have hlen : (List.replicate incrSz junk).length = incrSz := List.length_replicate
  refine ⟨by rw [hlen], Nat.le_of_eq hlen.symm, ⟨1, by omega⟩, ?_⟩
  unfold largest
  omega

/-- A size below the largest one can be enlarged. -/
theorem Sized.enlarge (h : Sized mem sz) (hlt : mem.length < largest) :
    Sized (mem ++ List.replicate incrSz junk) (sz + incrSz) := by
  obtain ⟨hsize, hpos, ⟨j, hj⟩, -⟩ := h
  have hlen : (mem ++ List.replicate incrSz junk).length = mem.length + incrSz := by
    rw [List.length_append, List.length_replicate]
  refine ⟨?_, ?_, ?_, ?_⟩ <;> rw [hlen]
  · rw [hsize]
    push_cast
    rfl
  · omega
  · exact ⟨j + 1, by rw [hj, Nat.mul_add, Nat.mul_one]⟩
  · unfold largest incrSz at *
    omega

/-- **When the size overflows**: less than 1024 bytes are free in a buffer of the largest size. -/
theorem enlarge_eq_none (h : Ready b) :
    enlarge junk b = none ↔ largest < b.atInBuf + needMoreThreshold := by
  obtain ⟨⟨hsize, hpos, ⟨j, hj⟩, hle⟩, hat, -⟩ := h
  simp only [enlarge]
  unfold largest incrSz needMoreThreshold intMax at *
  rw [hsize]
  constructor
  · intro hnone
    split at hnone
    · split at hnone
      · omega
      · cases hnone
    · cases hnone
  · intro hfull
    rw [if_pos (by omega), if_pos (by omega)]

/-- Otherwise there is room for 1024 bytes. -/
theorem enlarge_eq_some (h : Ready b) (hb : enlarge junk b = some b') :
    Ready b' ∧ needMoreThreshold ≤ b'.rdbufSz - b'.atInBuf ∧ b'.atInBuf = b.atInBuf ∧
      b'.mem.take b.atInBuf = b.mem.take b.atInBuf := by
  obtain ⟨hsized, hat, hlogged⟩ := h
  simp only [enlarge] at hb
  split at hb
  · split at hb
    · cases hb
    · next hleft hfits =>
      cases hb
      have hsize := hsized.size_eq
      have hlt : b.mem.length < largest := by
        unfold largest incrSz intMax at *
        omega
      have hlarger : b.mem.length ≤ (b.mem ++ List.replicate incrSz junk).length := by
        rw [List.length_append]
        omega
      refine ⟨⟨hsized.enlarge hlt, Nat.le_trans hat hlarger, hlogged.mono hlarger⟩, ?_, rfl, ?_⟩
      · show (needMoreThreshold : ℤ) ≤ b.rdbufSz + incrSz - b.atInBuf
        unfold needMoreThreshold incrSz
        omega
      · rw [List.take_append_of_le_length hat]
  · next hleft =>
    cases hb
    exact ⟨⟨hsized, hat, hlogged⟩, by omega, rfl, rfl⟩

/-- **A fragment is received.** -/
theorem receive_eq_some (h : Ready b) (hroom : needMoreThreshold ≤ b.rdbufSz - b.atInBuf)
    (hb : receive b frag = some b') :
    Ready b' ∧ b'.atInBuf = b.atInBuf + frag.length ∧
      b'.mem.take b'.atInBuf = b.mem.take b.atInBuf ++ frag := by
  obtain ⟨⟨hsize, hpos, hdvd, hle⟩, hat, hlogged⟩ := h
  simp only [receive] at hb
  split at hb
  · next hfits =>
    cases hb
    have hlen : (writeAt b.mem b.atInBuf frag).length = b.mem.length := by
      rw [length_writeAt]
      omega
    refine ⟨⟨⟨?_, ?_, ?_, ?_⟩, ?_, ?_⟩, rfl, take_writeAt hat⟩
    · rw [hlen]
      exact hsize
    · rw [hlen]
      exact hpos
    · rw [hlen]
      exact hdvd
    · rw [hlen]
      exact hle
    · show b.atInBuf + frag.length ≤ (writeAt b.mem b.atInBuf frag).length
      omega
    · show Logged (b.recvs ++ _) (writeAt b.mem b.atInBuf frag).length
      rw [hlen]
      exact hlogged.append hroom (by omega)
  · cases hb

/-- All but the last of the fragments, with one more in front. -/
theorem length_dropLast_cons {frag : List UInt8} {frags : List (List UInt8)} (h : frags ≠ []) :
    (frag :: frags).dropLast.flatten.length =
      frag.length + frags.dropLast.flatten.length := by
  rw [List.dropLast_cons_of_ne_nil h, List.flatten_cons, List.length_append]

/-- **What the loop does.**  The size overflows exactly if all but the last of the fragments leave
less than 1024 bytes of the largest buffer free; otherwise the fragments are stored one behind
the other. -/
theorem rest_spec : ∀ (frags : List (List UInt8)) (b : Buf) {b' : Buf} {ovf : Bool}, Ready b →
    rest junk frags b = some (b', ovf) →
    (ovf = true ↔ frags ≠ [] ∧
      largest < b.atInBuf + frags.dropLast.flatten.length + needMoreThreshold) ∧
    (ovf = false → Ready b' ∧ b'.atInBuf = b.atInBuf + frags.flatten.length ∧
      b'.mem.take b'.atInBuf = b.mem.take b.atInBuf ++ frags.flatten) := by
  intro frags
  induction frags with
  | nil =>
    intro b b' ovf hready hrest
    cases hrest
    simp [hready]
  | cons frag frags ih =>
    intro b b' ovf hready hrest
    rw [rest] at hrest
    cases henlarge : enlarge junk b with
    | none =>
      rw [henlarge] at hrest
      cases hrest
      have hfull := (enlarge_eq_none hready).mp henlarge
      refine ⟨iff_of_true rfl ⟨List.cons_ne_nil _ _, by omega⟩, fun h => by cases h⟩
    | some b₁ =>
      have hfits : ¬ largest < b.atInBuf + needMoreThreshold := by
        rw [← @enlarge_eq_none junk b hready, henlarge]
        exact Option.some_ne_none b₁
      simp only [henlarge, Option.bind_eq_some_iff] at hrest
      obtain ⟨b₂, hreceive, hrest⟩ := hrest
      obtain ⟨hready₁, hroom, hat₁, hmem₁⟩ := enlarge_eq_some hready henlarge
      obtain ⟨hready₂, hat₂, hmem₂⟩ := receive_eq_some hready₁ hroom hreceive
      obtain ⟨hover, hdone⟩ := ih b₂ hready₂ hrest
      refine ⟨?_, fun h => ?_⟩
      · rw [hover, hat₂, hat₁]
        by_cases hnil : frags = []
        · subst hnil
          simp
          omega
        · have hcons : frag :: frags ≠ [] := List.cons_ne_nil _ _
          rw [length_dropLast_cons hnil, and_iff_right hnil, and_iff_right hcons]
          omega
      · obtain ⟨hready', hat', hmem'⟩ := hdone h
        refine ⟨hready', ?_, ?_⟩
        · rw [hat', hat₂, hat₁, List.flatten_cons, List.length_append]
          omega
        · rw [hmem', hmem₂, hat₁, hmem₁, List.flatten_cons, List.append_assoc]

/-- Fragments of at most 1024 bytes always have room. -/
theorem rest_isSome : ∀ (frags : List (List UInt8)) (b : Buf), Ready b →
    (∀ f ∈ frags, f.length ≤ needMoreThreshold) → ∃ r, rest junk frags b = some r := by
  intro frags
  induction frags with
  | nil => intro b _ _; exact ⟨_, rfl⟩
  | cons frag frags ih =>
    intro b hready hfrags
    obtain ⟨hfrag, hfrags⟩ := List.forall_mem_cons.mp hfrags
    rw [rest]
    cases henlarge : enlarge junk b with
    | none => exact ⟨_, rfl⟩
    | some b₁ =>
      obtain ⟨hready₁, hroom, -, -⟩ := enlarge_eq_some hready henlarge
      cases hreceive : receive b₁ frag with
      | none =>
        simp only [receive] at hreceive
        rw [if_pos (by omega)] at hreceive
        cases hreceive
      | some b₂ =>
        obtain ⟨hready₂, -, -⟩ := receive_eq_some hready₁ hroom hreceive
        simpa [hreceive] using ih b₂ hready₂ hfrags

end Loop

/-! ### Calls -/

/-- All but the last of the fragments leave 1024 bytes of the largest buffer free. -/
def Short (msg : List (List UInt8)) : Prop := msg.dropLast.flatten.length ≤ 2147449856

/-- What the calls should have done: each of them has returned its message, at each receive there
was room for 1024 bytes, up to the end of the buffer, and the buffer has never become
smaller. -/
structure Reassembled (msgs : List (List (List UInt8))) (s : State) : Prop where
  returned : s.returned = msgs.map fun m => ⟨m.flatten.length, some m.flatten⟩
  room : ∀ r ∈ s.recvs, needMoreThreshold ≤ r.capacity ∧ r.offset + r.capacity = r.alloc
  grows : s.recvs.Pairwise fun r r' => r.alloc ≤ r'.alloc

/-- What holds between the calls. -/
inductive Kept (s : State) : Prop where
  | fresh (hbuf : s.readbuf = none) (hrecvs : s.recvs = [])
  | used {mem : List UInt8} (hbuf : s.readbuf = some mem) (hsized : Sized mem s.rdbufSz)
      (hlogged : Logged s.recvs mem.length)

section Calls

variable {junk : UInt8} {s s' : State} {msg : List (List UInt8)} {msgs : List (List (List UInt8))}

theorem ready_open (h : Kept s) : Ready (open_ junk s) := by
  cases h with
  | fresh hbuf hrecvs =>
    simp only [open_, hbuf, hrecvs]
    exact ⟨sized_fresh, Nat.zero_le _, logged_nil _⟩
  | used hbuf hsized hlogged =>
    simp only [open_, hbuf]
    exact ⟨hsized, Nat.zero_le _, hlogged⟩

theorem atInBuf_open (s : State) : (open_ junk s).atInBuf = 0 := by
  unfold open_
  split <;> rfl

/-- At the start of a call the whole buffer is free. -/
theorem room_open (h : Kept s) :
    needMoreThreshold ≤ (open_ junk s).rdbufSz - (open_ junk s).atInBuf := by
  have hsized := (@ready_open junk s h).sized
  have hsize := hsized.size_eq
  have hpos := hsized.pos
  rw [atInBuf_open]
  unfold needMoreThreshold incrSz at *
  omega

theorem kept_close {b : Buf} {ret : Ret} (h : Ready b) : Kept (close s b ret) :=
  .used rfl h.sized h.logged

/-- **One call.**  The size overflows if the message is not short; otherwise the message is
returned. -/
theorem step_spec (hkept : Kept s) (hover : s.overflow = false) (hpos : ∀ f ∈ msg, f ≠ [])
    (hs : step junk s msg = some s') :
    (s'.overflow = false ↔ Short msg) ∧
      (s'.overflow = true → s'.returned = s.returned) ∧
      (s'.overflow = false → Kept s' ∧
        s'.returned = s.returned ++ [⟨msg.flatten.length, some msg.flatten⟩]) := by
  cases msg with
  | nil => cases hs
  | cons frag frags =>
    have hfrag : 0 < frag.length := List.length_pos_iff.mpr (hpos frag List.mem_cons_self)
    rw [step, hover, if_neg (by simp)] at hs
    obtain ⟨b, hreceive, hs⟩ := Option.bind_eq_some_iff.mp hs
    obtain ⟨hready, hat, hmem⟩ := receive_eq_some (ready_open hkept) (room_open hkept) hreceive
    rw [atInBuf_open, Nat.zero_add] at hat
    rw [atInBuf_open, List.take_zero, List.nil_append] at hmem
    rw [if_neg (by omega)] at hs
    obtain ⟨⟨b', ovf⟩, hrest, hs⟩ := Option.map_eq_some_iff.mp hs
    obtain ⟨hiff, hdone⟩ := rest_spec frags b hready hrest
    have hshort : ovf = false ↔ Short (frag :: frags) := by
      rw [← Bool.not_eq_true, hiff, hat, Short]
      by_cases hnil : frags = []
      · simp [hnil]
      · rw [length_dropLast_cons hnil, and_iff_right hnil]
        unfold largest incrSz needMoreThreshold
        omega
    cases ovf with
    | true =>
      obtain rfl : { s with overflow := true } = s' := hs
      refine ⟨⟨fun h => ?_, fun h => ?_⟩, fun _ => rfl, fun h => ?_⟩
      · cases h
      · cases hshort.mpr h
      · cases h
    | false =>
      obtain rfl : close s b' ⟨b'.atInBuf, some (b'.mem.take b'.atInBuf)⟩ = s' := hs
      obtain ⟨hready', hat', hmem'⟩ := hdone rfl
      refine ⟨iff_of_true hover (hshort.mp rfl), fun h => ?_, fun _ => ⟨kept_close hready', ?_⟩⟩
      · rw [close, hover] at h
        cases h
      · simp only [close]
        rw [hmem', hmem, hat', hat, List.flatten_cons, List.length_append]

/-- Once the size has overflowed nothing changes. -/
theorem exec_overflow : ∀ (msgs : List (List (List UInt8))) {s s' : State}, s.overflow = true →
    exec (step junk) s msgs = some s' → s' = s := by
  intro msgs
  induction msgs with
  | nil =>
    intro s s' _ hexec
    rw [exec_nil, Option.some.injEq] at hexec
    exact hexec.symm
  | cons msg msgs ih =>
    intro s s' hover hexec
    obtain ⟨t, ht, htail⟩ := exec_cons_eq_some.mp hexec
    cases msg with
    | nil => cases ht
    | cons frag frags =>
      rw [step, if_pos hover, Option.some.injEq] at ht
      subst ht
      exact ih hover htail

/-- **A sequence of calls.** -/
theorem exec_spec : ∀ (msgs : List (List (List UInt8))) {s s' : State}, Kept s →
    s.overflow = false → (∀ m ∈ msgs, ∀ f ∈ m, f ≠ []) → exec (step junk) s msgs = some s' →
    (s'.overflow = false ↔ ∀ m ∈ msgs, Short m) ∧
      (s'.overflow = true → s'.returned.length < s.returned.length + msgs.length) ∧
      (s'.overflow = false → Kept s' ∧
        s'.returned = s.returned ++ msgs.map fun m => ⟨m.flatten.length, some m.flatten⟩) := by
  intro msgs
  induction msgs with
  | nil =>
    intro s s' hkept hover _ hexec
    rw [exec_nil, Option.some.injEq] at hexec
    subst hexec
    simp [hover, hkept]
  | cons msg msgs ih =>
    intro s s' hkept hover hpos hexec
    obtain ⟨hmsg, hmsgs⟩ := List.forall_mem_cons.mp hpos
    obtain ⟨t, ht, htail⟩ := exec_cons_eq_some.mp hexec
    obtain ⟨hiff, hsame, hreturned⟩ := step_spec hkept hover hmsg ht
    rw [List.forall_mem_cons, List.length_cons]
    cases htover : t.overflow with
    | true =>
      obtain rfl := exec_overflow msgs htover htail
      have hlong : ¬ Short msg := by
        rw [← hiff, htover]
        decide
      refine ⟨?_, fun _ => ?_, fun h => ?_⟩
      · rw [htover]
        exact iff_of_false (by decide) fun h => hlong h.1
      · rw [hsame htover]
        omega
      · rw [htover] at h
        cases h
    | false =>
      obtain ⟨hkept', hret⟩ := hreturned htover
      obtain ⟨hiff', hless, hall⟩ := ih hkept' htover hmsgs htail
      refine ⟨?_, fun h => ?_, fun h => ?_⟩
      · rw [hiff', and_iff_right (hiff.mp htover)]
      · have := hless h
        rw [hret, List.length_append, List.length_singleton] at this
        omega
      · obtain ⟨hkept'', hret'⟩ := hall h
        refine ⟨hkept'', ?_⟩
        rw [hret', hret, List.append_assoc, List.map_cons, List.singleton_append]

/-- Messages in fragments of at most 1024 bytes are always received. -/
theorem step_isSome (hkept : Kept s) (hne : msg ≠ [])
    (hmsg : ∀ f ∈ msg, f.length ≤ needMoreThreshold) : ∃ s', step junk s msg = some s' := by
  cases msg with
  | nil => exact absurd rfl hne
  | cons frag frags =>
    obtain ⟨hfrag, hfrags⟩ := List.forall_mem_cons.mp hmsg
    rw [step]
    split
    · exact ⟨_, rfl⟩
    · have hroom := @room_open junk s hkept
      cases hreceive : receive (open_ junk s) frag with
      | none =>
        simp only [receive] at hreceive
        rw [if_pos (by omega)] at hreceive
        cases hreceive
      | some b =>
        obtain ⟨hready, -, -⟩ := receive_eq_some (ready_open hkept) hroom hreceive
        rw [Option.bind_some]
        split
        · exact ⟨_, rfl⟩
        · obtain ⟨r, hr⟩ := @rest_isSome junk frags b hready hfrags
          rw [hr]
          exact ⟨_, rfl⟩

theorem kept_init : Kept init := .fresh rfl rfl

/-- **When the messages are put together.**  For every sequence of calls and every way in which the
messages come in fragments, the calls do what they should exactly if all but the last fragment of
each message leave 1024 bytes of the largest buffer free. -/
theorem reassembled_iff (hpos : ∀ m ∈ msgs, ∀ f ∈ m, f ≠ [])
    (hexec : exec (step junk) init msgs = some s) :
    Reassembled msgs s ↔ ∀ m ∈ msgs, Short m := by
  obtain ⟨hiff, hless, hall⟩ := exec_spec msgs kept_init rfl hpos hexec
  rw [← hiff]
  constructor
  · intro h
    by_contra hover
    rw [Bool.not_eq_false] at hover
    have hlen := hless hover
    rw [h.returned, List.length_map] at hlen
    exact absurd hlen (by simp [init])
  · intro hover
    obtain ⟨hkept, hret⟩ := hall hover
    cases hkept with
    | fresh hbuf hrecvs =>
      refine ⟨hret, ?_, ?_⟩ <;> rw [hrecvs]
      · exact (logged_nil 0).room
      · exact .nil
    | used hbuf hsized hlogged => exact ⟨hret, hlogged.room, hlogged.grows⟩

theorem reassembled_iff_two :
    ∃ s, exec (step 0) init [[[1, 2], [3]]] = some s ∧ Reassembled [[[1, 2], [3]]] s := by
  obtain ⟨s, hs⟩ := @step_isSome 0 init [[1, 2], [3]] kept_init (by decide) (by decide)
  have hexec : exec (step 0) init [[[1, 2], [3]]] = some s := exec_cons_eq_some.mpr ⟨s, hs, rfl⟩
  exact ⟨s, hexec, (reassembled_iff (by decide) hexec).mpr (by simp [Short])⟩

/-! ### A message that is too long -/

/-- A fragment of 1024 bytes. -/
def fragment : List UInt8 := List.replicate 1024 0

/-- A message of less than `2 ^ 31` bytes. -/
def longMessage : List (List UInt8) := List.replicate 2097121 fragment

theorem length_flatten_replicate {α : Type} (n : ℕ) (l : List α) :
    (List.replicate n l).flatten.length = n * l.length := by
  rw [List.length_flatten, List.map_replicate, List.sum_replicate_nat]

/-- The last fragment of this message is not received: the size of the buffer overflows. -/
theorem long_message_overflows :
    longMessage.flatten.length < 2 ^ 31 ∧ (∀ f ∈ longMessage, f ≠ [] ∧ f.length ≤ 1024) ∧
      ∃ s, exec (step 0) init [longMessage] = some s ∧ s.overflow = true ∧ s.returned = [] ∧
        ¬ Reassembled [longMessage] s := by
  have hlen : fragment.length = 1024 := List.length_replicate
  have hfrag : ∀ f ∈ longMessage, f ≠ [] ∧ f.length ≤ 1024 := by
    intro f hf
    rw [List.eq_of_mem_replicate hf, hlen]
    refine ⟨fun hnil => ?_, Nat.le_refl _⟩
    rw [hnil] at hlen
    cases hlen
  have hlong : ¬ Short longMessage := by
    rw [Short, longMessage, List.dropLast_replicate, length_flatten_replicate, hlen]
    omega
  refine ⟨?_, hfrag, ?_⟩
  · rw [longMessage, length_flatten_replicate, hlen]
    omega
  · obtain ⟨s, hs⟩ := @step_isSome 0 init longMessage kept_init
      (by rw [longMessage, ne_eq, List.replicate_eq_nil_iff]; omega) fun f hf => (hfrag f hf).2
    obtain ⟨hiff, hsame, -⟩ := step_spec kept_init rfl (fun f hf => (hfrag f hf).1) hs
    have hover : s.overflow = true := by
      rw [← Bool.not_eq_false, hiff]
      exact hlong
    refine ⟨s, exec_cons_eq_some.mpr ⟨s, hs, rfl⟩, hover, hsame hover, fun h => ?_⟩
    have hret := h.returned
    rw [hsame hover] at hret
    cases hret

end Calls

end TcpIp.Sctp
