import TcpIp.Lib.Buffer
import TcpIp.Lib.Bytes

/-!
# Session announcements

`mysdr` prints the announcements of sessions that are sent to a multicast group.  An announcement
has a header of four bytes, the address of its source, some bytes of authentication data, whose
number is in the header, and a text, which may be preceded by its type.

`loop` receives an announcement in a buffer and puts a zero behind it.  It computes where the text
begins without looking at how much has been received.  The buffer is used again, so that behind a
short announcement there is what is left of the one before, and the header is converted to
the byte order of the host where it stands.

## Main definitions

* `loopBody` — the body of the loop.
* `authlen` — the number of bytes of authentication data.

## Main results

* `text_within_iff` — when the text begins within what has been received.
* `printed_of_within` — what is printed then.
-/

namespace TcpIp.Mysdr

open Buffer Bytes

def sapVersionMask : ℕ := 0xe0000000
def sapVersionShift : ℕ := 29
def sapIpv6 : ℕ := 0x10000000
def sapDelete : ℕ := 0x04000000
def sapEncrypted : ℕ := 0x02000000
def sapCompressed : ℕ := 0x01000000
def sapAuthlenMask : ℕ := 0x00ff0000
def sapAuthlenShift : ℕ := 16
def sapHashMask : ℕ := 0x0000ffff

/-- `sizeof(buf)`: the header, the source, and `BUFFSIZE` bytes of data. -/
def sizeofBuf : ℕ := 4 + 4 + 8192

/-- Where `sap_data` begins. -/
def sapData : ℕ := 8

/-- `"application/sdp"` -/
def applicationSdp : List UInt8 :=
  [97, 112, 112, 108, 105, 99, 97, 116, 105, 111, 110, 47, 115, 100, 112]

/-- What becomes of an announcement. -/
inductive Verdict where
  /-- The version is neither 0 nor 1. -/
  | version (header : ℕ)
  | ipv6
  /-- A packet of another type. -/
  | cant (header : ℕ)
  /-- The text at the position `p` is printed. -/
  | text (p : ℕ) (printed : List UInt8)
  deriving DecidableEq, Repr

/-- Where the text begins, if one is printed. -/
def Verdict.pos : Verdict → Option ℕ
  | .text p _ => some p
  | _ => none

/-- What a turn of the loop leaves behind and prints. -/
structure Turn where
  buf : List UInt8
  hash : ℕ
  verdict : Verdict
  deriving DecidableEq, Repr

/-- What is done with the header, in host order, and the buffer. -/
def examine (header : ℕ) (buf : List UInt8) : Verdict :=
  if (header &&& sapVersionMask) >>> sapVersionShift > 1 then .version header
  else if header &&& sapIpv6 ≠ 0 then .ipv6
  else if header &&& (sapDelete ||| sapEncrypted ||| sapCompressed) ≠ 0 then .cant header
  else
    let p := sapData + (header &&& sapAuthlenMask) >>> sapAuthlenShift
    let p := if cstring buf p = applicationSdp then p + 16 else p
    .text p (cstring buf p)

/-- The body of the loop, on a host with the byte order `o`, for an announcement that `Recvfrom`
finds room for. -/
def loopBody (o : Order) (buf msg : List UInt8) : Turn :=
  let n := msg.length
  let buf := writeAt buf 0 msg
  let buf := writeAt buf n [0]
  let header := get .big buf 0 4
  let buf := writeAt buf 0 (o.enc 4 header)
  ⟨buf, header &&& sapHashMask, examine header buf⟩

/-- The loop, with what becomes of each of the announcements. -/
def loop (o : Order) : List UInt8 → List (List UInt8) → List (List UInt8 × Verdict)
  | _, [] => []
  | buf, msg :: msgs =>
    let t := loopBody o buf msg
    (msg, t.verdict) :: loop o t.buf msgs

/-- The number of bytes of authentication data that an announcement has, by its second byte. -/
def authlen (msg : List UInt8) : ℕ := byte msg 1

/-- The authentication data is within the announcement, and what follows is not just the type of
a text. -/
def Held (msg : List UInt8) : Prop :=
  sapData + authlen msg ≤ msg.length ∧ msg.drop (sapData + authlen msg) ≠ applicationSdp

section Loop

variable {o : Order} {buf msg : List UInt8} {header p : ℕ} {printed : List UInt8}

theorem authlen_header (b₀ b₁ b₂ b₃ : UInt8) :
    (Order.big.dec [b₀, b₁, b₂, b₃] &&& sapAuthlenMask) >>> sapAuthlenShift = b₁.toNat := by
  have hmask : sapAuthlenMask >>> sapAuthlenShift = 2 ^ 8 - 1 := by decide
  have h₀ := b₀.toNat_lt
  have h₁ := b₁.toNat_lt
  have h₂ := b₂.toNat_lt
  have h₃ := b₃.toNat_lt
  rw [Nat.shiftRight_and_distrib, hmask, Nat.and_two_pow_sub_one_eq_mod,
    Nat.shiftRight_eq_div_pow]
  simp only [Order.dec, ofLowBytes, List.reverse_cons, List.reverse_nil, List.nil_append,
    List.cons_append, sapAuthlenShift]
  omega

/-- What is in the buffer when an announcement has been received and a zero put behind it. -/
theorem received (hroom : msg.length < buf.length) :
    writeAt (writeAt buf 0 msg) msg.length [0] = msg ++ 0 :: buf.drop (msg.length + 1) := by
  have hfirst : writeAt buf 0 msg = msg ++ ([buf.get ⟨msg.length, hroom⟩] ++
      buf.drop (msg.length + 1)) := by
    rw [writeAt, List.take_zero, List.nil_append, Nat.zero_add, List.drop_eq_getElem_cons hroom]
    rfl
  have hzero := @writeAt_append _ [buf.get ⟨msg.length, hroom⟩] msg [0]
    (buf.drop (msg.length + 1)) rfl
  rw [hfirst, hzero]
  rfl

/-- Where the text begins, if the checks are passed. -/
theorem examine_text (h : examine header buf = .text p printed) :
    printed = cstring buf p ∧
      p = if cstring buf (sapData + (header &&& sapAuthlenMask) >>> sapAuthlenShift) =
            applicationSdp
        then sapData + (header &&& sapAuthlenMask) >>> sapAuthlenShift + 16
        else sapData + (header &&& sapAuthlenMask) >>> sapAuthlenShift := by
  simp only [examine] at h
  split at h
  · cases h
  · split at h
    · cases h
    · split at h
      · cases h
      · rw [Verdict.text.injEq] at h
        obtain ⟨rfl, rfl⟩ := h
        exact ⟨rfl, rfl⟩

/-- The text begins behind the source. -/
theorem le_text (h : (loopBody o buf msg).verdict = .text p printed) : sapData ≤ p := by
  simp only [loopBody] at h
  obtain ⟨-, hp⟩ := examine_text h
  rw [hp]
  split
  · exact Nat.le_add_right_of_le (Nat.le_add_right ..)
  · exact Nat.le_add_right ..

/-- The header of an announcement, and what is behind it in the buffer when it has been
converted. -/
theorem loopBody_long (hmsg : sapData ≤ msg.length) (hroom : msg.length < buf.length)
    (h : (loopBody o buf msg).verdict = .text p printed) :
    ∃ mem, (∀ j, 4 ≤ j → j ≤ msg.length →
        mem.drop j = msg.drop j ++ 0 :: buf.drop (msg.length + 1)) ∧
      printed = cstring mem p ∧
      p = if cstring mem (sapData + authlen msg) = applicationSdp then sapData + authlen msg + 16
        else sapData + authlen msg := by
  have hfour : 4 ≤ msg.length := Nat.le_trans (by decide) hmsg
  have hheader : get .big (writeAt (writeAt buf 0 msg) msg.length [0]) 0 4 = get .big msg 0 4 := by
    rw [received hroom, get_append (by omega)]
  have hauthlen : (get .big msg 0 4 &&& sapAuthlenMask) >>> sapAuthlenShift = authlen msg := by
    match msg, hfour with
    | b₀ :: b₁ :: b₂ :: b₃ :: rest, _ => exact authlen_header b₀ b₁ b₂ b₃
  simp only [loopBody, hheader] at h
  obtain ⟨hprinted, hp⟩ := examine_text h
  rw [hauthlen] at hp
  refine ⟨_, ?_, hprinted, hp⟩
  intro j hj hle
  rw [drop_writeAt (Nat.zero_le _) (by rw [Order.length_enc]; omega), received hroom,
    List.drop_append_of_le_length hle]

/-- Something that begins like the type and goes on is longer. -/
theorem length_of_takeWhile {t : List UInt8} (h : t.takeWhile (· ≠ 0) = applicationSdp)
    (hne : t ≠ applicationSdp) : 16 ≤ t.length := by
  have hfirst : applicationSdp <+: t := h ▸ List.takeWhile_prefix _
  have hle := hfirst.length_le
  have hlt : applicationSdp.length ≠ t.length := fun heq => hne (hfirst.eq_of_length heq).symm
  have hlen : applicationSdp.length = 15 := rfl
  omega

theorem lt_of_sizes (hbuf : buf.length = sizeofBuf) (hmsg : msg.length ≤ sizeofBuf - 1) :
    msg.length < buf.length := by
  rw [hbuf]
  unfold sizeofBuf at *
  omega

/-- One announcement, whatever the buffer holds: the text begins within what has been received,
the zero behind it included, exactly if the announcement holds it. -/
theorem text_within_iff (hbuf : buf.length = sizeofBuf) (hmsg : msg.length ≤ sizeofBuf - 1)
    (h : (loopBody o buf msg).verdict = .text p printed) : p ≤ msg.length ↔ Held msg := by
  have hroom := lt_of_sizes hbuf hmsg
  unfold Held
  rcases Nat.lt_or_ge msg.length sapData with hshort | hlong
  · -- not even the source has been received
    have hle := le_text h
    exact iff_of_false (by omega) fun hin => by omega
  · obtain ⟨mem, hmem, -, hp⟩ := loopBody_long hlong hroom h
    by_cases hauth : sapData + authlen msg ≤ msg.length
    · have hstring : cstring mem (sapData + authlen msg) =
          (msg.drop (sapData + authlen msg)).takeWhile (· ≠ 0) :=
        cstring_eq (hmem _ (by unfold sapData; omega) hauth)
      have hlen : (msg.drop (sapData + authlen msg)).length =
          msg.length - (sapData + authlen msg) := List.length_drop
      rw [hstring] at hp
      rw [and_iff_right hauth]
      split at hp
      · next htype =>
        -- the type is there: it is followed by a zero of the announcement or by the last one
        constructor
        · intro hle heq
          rw [heq] at hlen
          have : applicationSdp.length = 15 := rfl
          omega
        · intro hne
          have := length_of_takeWhile htype hne
          omega
      · next htype =>
        refine iff_of_true (by omega) fun heq => htype ?_
        rw [heq]
        decide
    · refine iff_of_false ?_ fun hin => hauth hin.1
      rw [hp]
      split <;> omega

/-- What is printed then are bytes that have been received. -/
theorem printed_of_within (hbuf : buf.length = sizeofBuf) (hmsg : msg.length ≤ sizeofBuf - 1)
    (h : (loopBody o buf msg).verdict = .text p printed) (hp : p ≤ msg.length) :
    printed = (msg.drop p).takeWhile (· ≠ 0) := by
  have hle := le_text h
  obtain ⟨mem, hmem, hprinted, -⟩ :=
    loopBody_long (Nat.le_trans hle hp) (lt_of_sizes hbuf hmsg) h
  rw [hprinted]
  exact cstring_eq (hmem p (Nat.le_trans (by decide) hle) hp)

/-- The buffer keeps its size from one turn to the next. -/
theorem length_loopBody (hbuf : buf.length = sizeofBuf) (hmsg : msg.length ≤ sizeofBuf - 1) :
    (loopBody o buf msg).buf.length = sizeofBuf := by
  have hroom := lt_of_sizes hbuf hmsg
  have hfirst : (writeAt buf 0 msg).length = buf.length := length_writeAt (by omega)
  have hlen : (writeAt (writeAt buf 0 msg) msg.length [0]).length = buf.length := by
    rw [length_writeAt, hfirst]
    rw [hfirst, List.length_singleton]
    omega
  simp only [loopBody]
  rw [length_writeAt, hlen, hbuf]
  rw [Order.length_enc, hlen, hbuf]
  decide

/-- **When the text of an announcement begins within what has been received**: exactly if its
authentication data is within it, and what follows is not just the type of the text.  This is
so for every announcement of every sequence, whatever the buffer holds at first. -/
theorem loop_within_iff (hbuf : buf.length = sizeofBuf) (msgs : List (List UInt8))
    (hmsgs : ∀ m ∈ msgs, m.length ≤ sizeofBuf - 1) :
    ∀ x ∈ loop o buf msgs, ∀ p, x.2.pos = some p → (p ≤ x.1.length ↔ Held x.1) := by
  induction msgs generalizing buf with
  | nil => intro x hx; simp [loop] at hx
  | cons msg msgs ih =>
    obtain ⟨hmsg, hmsgs⟩ := List.forall_mem_cons.mp hmsgs
    intro x hx p hp
    rw [loop, List.mem_cons] at hx
    rcases hx with rfl | hx
    · cases hverdict : (loopBody o buf msg).verdict with
      | text q printed =>
        simp only [hverdict, Verdict.pos, Option.some.injEq] at hp
        subst hp
        exact text_within_iff hbuf hmsg hverdict
      | version header => simp [hverdict, Verdict.pos] at hp
      | ipv6 => simp [hverdict, Verdict.pos] at hp
      | cant header => simp [hverdict, Verdict.pos] at hp
    · exact ih (length_loopBody hbuf hmsg) hmsgs x hx p hp

end Loop

/-- The text `v=0`, behind its type. -/
def session : List UInt8 := [0x20, 0, 0, 7, 10, 0, 0, 1] ++ applicationSdp ++ [0, 118, 61, 48]

/-- A buffer full of the letter `A`. -/
def leftovers : List UInt8 := List.replicate sizeofBuf 65

theorem loop_within_iff_session :
    (loopBody .little leftovers session).verdict.pos = some 24 ∧ 24 ≤ session.length :=
  have hpos : (loopBody .little leftovers session).verdict.pos = some 24 := by decide +kernel
  ⟨hpos, (@loop_within_iff .little leftovers (by decide +kernel) [session] (by decide)
    (session, (loopBody .little leftovers session).verdict) List.mem_cons_self 24 hpos).mpr
    ⟨by decide, by decide⟩⟩

/-- The header announces more authentication data than there is. -/
def truncated : List UInt8 := [0x20, 255, 0, 7, 10, 0, 0, 1, 118, 61, 48]

/-- The announcement ends with the type. -/
def typeOnly : List UInt8 := [0x20, 0, 0, 7, 10, 0, 0, 1] ++ applicationSdp

/-- Neither the text of these nor that of an empty announcement is within what has been
received. -/
theorem text_not_received :
    ((loopBody .little leftovers truncated).verdict.pos = some 263 ∧ truncated.length = 11) ∧
      ((loopBody .little leftovers typeOnly).verdict.pos = some 24 ∧ typeOnly.length = 23) ∧
      (loopBody .little (List.replicate sizeofBuf 0) []).verdict.pos = some 8 := by
  decide +kernel

end TcpIp.Mysdr
