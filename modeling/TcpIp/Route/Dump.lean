import Mathlib.Data.List.Forall2
import Mathlib.Data.List.TakeWhile
import Mathlib.Data.Nat.Bits
import TcpIp.Lib.Bytes
import TcpIp.Lib.Frames

/-!
# The interface list of a routing socket

`sysctl` with `NET_RT_IFLIST` returns a list of messages, one behind the other, each of
which starts with its length.  A message `RTM_IFINFO` is about an interface and a message
`RTM_NEWADDR` about an address of an interface; behind the header stand the socket address
structures for which a bit is set in a member of the header.  Each of them is filled up to
a multiple of the size of a `u_long`, and `get_rtaddrs` finds them by their lengths.

The byte order and the sizes of the two headers are those of the machine, `Abi`; a `u_long`
has eight bytes.

## Main definitions

* `getRtaddrs` — the positions of the address structures of a message.
* `Msg`, `Carries` — a message, and the address structures it carries.
* `Link` — a message about an interface, with its index and its name.

## Main results

* `Carries.rtiInfo_eq`, `Carries.mem_eq` — `getRtaddrs` finds the structures that a message
  carries.
-/

namespace TcpIp.Route

open Bytes Frames

/-! ### Constants and sizes -/

def rtmNewaddr : ℕ := 0xc
def rtmIfinfo : ℕ := 0xe

def rtaxIfp : ℕ := 4
def rtaxIfa : ℕ := 5
def rtaxBrd : ℕ := 7
def rtaxMax : ℕ := 8

def afLink : ℕ := 18
def ifnamsiz : ℕ := 16

/-- The machine. -/
structure Abi where
  order : Order
  /-- `sizeof(struct if_msghdr)`, which holds a `struct if_data`. -/
  ifMsghdr : ℕ
  /-- `sizeof(struct ifa_msghdr)`. -/
  ifaMsghdr : ℕ
  le_ifMsghdr : 32 ≤ ifMsghdr
  le_ifaMsghdr : 16 ≤ ifaMsghdr

/-- A machine with eight-byte words that keeps the lowest byte first. -/
def amd64 : Abi := ⟨.little, 168, 20, by decide, by decide⟩

/-! ### Members

The two headers agree up to the index. -/

section Members

variable (o : Order) (mem : List UInt8)

def ifmMsglen (ifm : ℕ) : ℕ := get o mem ifm 2

def ifmType (ifm : ℕ) : ℕ := byte mem (ifm + 3)

def ifmAddrs (ifm : ℕ) : ℕ := get o mem (ifm + 4) 4

def ifmFlags (ifm : ℕ) : ℕ := get o mem (ifm + 8) 4

def saLen (sa : ℕ) : ℕ := byte mem sa

def saFamily (sa : ℕ) : ℕ := byte mem (sa + 1)

def sdlIndex (sdl : ℕ) : ℕ := get o mem (sdl + 2) 2

def sdlNlen (sdl : ℕ) : ℕ := byte mem (sdl + 5)

def sdlAlen (sdl : ℕ) : ℕ := byte mem (sdl + 6)

/-- The position of `sdl_data`. -/
def sdlData (sdl : ℕ) : ℕ := sdl + 8

end Members

/-- The string at the start of some bytes. -/
def cstring (bs : List UInt8) : List UInt8 := bs.takeWhile (· != 0)

/-! ### `get_rtaddrs` -/

/-- `ROUNDUP(a, sizeof(u_long))`. -/
def roundup (a : ℕ) : ℕ := if a &&& 7 ≠ 0 then 1 + (a ||| 7) else a

/-- `NEXT_SA`: the size of a structure whose length member is `len`. -/
def saSize (len : ℕ) : ℕ := if len ≠ 0 then roundup len else 8

/-- The loop of `get_rtaddrs` over the `n` bits from `i` on. -/
def rtaddrs (mem : List UInt8) (addrs : ℕ) : ℕ → ℕ → ℕ → List (Option ℕ)
  | 0, _, _ => []
  | n + 1, i, sa =>
    if addrs.testBit i then some sa :: rtaddrs mem addrs n (i + 1) (sa + saSize (saLen mem sa))
    else none :: rtaddrs mem addrs n (i + 1) sa

/-- `get_rtaddrs`: the array `rti_info`. -/
def getRtaddrs (mem : List UInt8) (addrs sa : ℕ) : List (Option ℕ) :=
  rtaddrs mem addrs rtaxMax 0 sa

/-- `rti_info[i]` of the message at `ifm` with a header of `hdr` bytes. -/
def rtiInfo (o : Order) (mem : List UInt8) (hdr ifm i : ℕ) : Option ℕ :=
  (getRtaddrs mem (ifmAddrs o mem ifm) (ifm + hdr)).getD i none

/-- The loop over the messages of a list.  A list of `n` bytes has at most `n` messages;
the loop does not end if one of them has the length zero. -/
def forMessages {σ ρ : Type*} (abi : Abi) (mem : List UInt8) (body : σ → ℕ → Except ρ σ) (s : σ) :
    Option (Except ρ (σ × ℤ)) :=
  scan (ifmMsglen abi.order mem) body mem.length 0 mem.length s

/-! ### Messages -/

/-- A message, with its length in its first two bytes. -/
structure Msg (o : Order) where
  bytes : List UInt8
  msglen_eq : get o bytes 0 2 = bytes.length
  four_le : 4 ≤ bytes.length

/-- An address structure, filled up. -/
def Padded (sa : List UInt8) : Prop := sa.length = saSize (byte sa 0)

/-- The address structures one behind the other. -/
def block (blk : List (Option (List UInt8))) : List UInt8 := (blk.map (·.getD [])).flatten

/-- A message with a header of `hdr` bytes carries the address structures `blk`, at the
places of `rti_info`. -/
structure Carries (o : Order) (hdr : ℕ) (bytes : List UInt8) (blk : List (Option (List UInt8))) :
    Prop where
  length_eq : blk.length = rtaxMax
  layout : ∃ front rest, front.length = hdr ∧ bytes = front ++ (block blk ++ rest)
  bits : ∀ i < rtaxMax, (get o bytes 4 4).testBit i = (blk.getD i none).isSome
  padded : ∀ sa, some sa ∈ blk → Padded sa

/-- A message about an interface. -/
structure Link (abi : Abi) extends Msg abi.order where
  index : ℕ
  name : List UInt8
  blk : List (Option (List UInt8))
  sdl : List UInt8
  type_eq : ifmType bytes 0 = rtmIfinfo
  carries : Carries abi.order abi.ifMsghdr bytes blk
  ifp : blk.getD rtaxIfp none = some sdl
  family_eq : saFamily sdl 0 = afLink
  index_eq : sdlIndex abi.order sdl 0 = index
  nlen_eq : sdlNlen sdl 0 = name.length
  data_eq : slice sdl (sdlData 0) name.length = name
  index_ne : index ≠ 0
  name_ne : name ≠ []
  name_lt : name.length < ifnamsiz
  nul : 0 ∉ name

/-! ### A message in a list -/

section Message

variable {mem pre post : List UInt8}

theorem Msg.type_at {o : Order} (m : Msg o) (hmem : mem = pre ++ (m.bytes ++ post)) :
    ifmType mem pre.length = ifmType m.bytes 0 := by
  have hlen := m.four_le
  rw [ifmType, ifmType, hmem, byte_append_add, byte_append (by omega), Nat.zero_add]

theorem Msg.msglen_at {o : Order} (m : Msg o) (hmem : mem = pre ++ (m.bytes ++ post)) :
    ifmMsglen o mem pre.length = m.bytes.length := by
  have hlen := m.four_le
  have hat := get_append_add (o := o) pre (m.bytes ++ post) 0 2
  rw [← hmem, get_append (by omega), m.msglen_eq] at hat
  exact hat

theorem Link.le_length_sdl {abi : Abi} (l : Link abi) : 8 + l.name.length ≤ l.sdl.length := by
  have hlen := congrArg List.length l.data_eq
  have hpos := List.length_pos_of_ne_nil l.name_ne
  simp only [slice, sdlData, List.length_take, List.length_drop] at hlen
  omega

theorem cstring_eq {bs : List UInt8} (h : 0 ∉ bs) : cstring bs = bs := by
  rw [cstring, List.takeWhile_eq_self_iff]
  intro b hb
  rw [bne_iff_ne]
  rintro rfl
  exact h hb

theorem cstring_append {as : List UInt8} (h : 0 ∉ as) (bs : List UInt8) :
    cstring (as ++ bs) = as ++ cstring bs := by
  rw [cstring, List.takeWhile_append_of_pos]
  · rfl
  · intro b hb
    rw [bne_iff_ne]
    rintro rfl
    exact h hb

end Message

/-! ### The loop over the messages -/

section Loop

variable {o : Order} {β σ ρ : Type*} {msg : β → Msg o}

theorem length_le_flatten (cs : List β) :
    cs.length ≤ (cs.map fun c => (msg c).bytes).flatten.length := by
  induction cs with
  | nil => exact Nat.le_refl 0
  | cons c cs ih =>
    have hc := (msg c).four_le
    rw [List.map_cons, List.flatten_cons, List.length_append, List.length_cons]
    omega

/-- **The loop over a list of messages** ends, and goes through them. -/
theorem scan_messages {mem : List UInt8} {body : σ → ℕ → Except ρ σ}
    {g : σ → ℕ → β → Except ρ σ} {cs : List β} (s : σ)
    (hmem : mem = (cs.map fun c => (msg c).bytes).flatten)
    (hbody : ∀ c ∈ cs, Standing mem (fun pos => ∀ s, body s pos = g s pos c) (msg c).bytes) :
    scan (ifmMsglen o mem) body mem.length 0 mem.length s =
      some ((run (fun c => (msg c).bytes) g 0 cs s).map (·, 0)) := by
  have hscan := @scan_eq_run UInt8 β σ ρ (fun c => (msg c).bytes) mem (ifmMsglen o mem)
    body g cs mem.length [] [] s (by rw [List.append_nil, List.nil_append]; exact hmem) ?_ hbody
    (hmem ▸ length_le_flatten cs)
  · rw [← hmem] at hscan
    exact hscan
  · intro c _
    refine ⟨?_, fun pre post hat => (msg c).msglen_at hat⟩
    intro hnil
    have hlen := (msg c).four_le
    rw [hnil] at hlen
    cases hlen

theorem forMessages_eq_run {abi : Abi} {β σ ρ : Type*} {msg : β → Msg abi.order} {mem : List UInt8}
    {body : σ → ℕ → Except ρ σ} {g : σ → ℕ → β → Except ρ σ} {cs : List β} (s : σ)
    (hmem : mem = (cs.map fun c => (msg c).bytes).flatten)
    (hbody : ∀ c ∈ cs, Standing mem (fun pos => ∀ s, body s pos = g s pos c) (msg c).bytes) :
    forMessages abi mem body s =
      some ((run (fun c => (msg c).bytes) g 0 cs s).map (·, 0)) :=
  scan_messages s hmem hbody

end Loop

/-! ### Finding the address structures -/

theorem roundup_eq : ∀ a < 256, roundup a = (a + 7) / 8 * 8 := by decide +kernel

theorem byte_lt (mem : List UInt8) (i : ℕ) : byte mem i < 256 := UInt8.toNat_lt _

theorem Padded.length_pos {sa : List UInt8} (h : Padded sa) : 0 < sa.length := by
  rw [h, saSize]
  split
  · rw [roundup_eq _ (byte_lt sa 0)]
    omega
  · decide

theorem Padded.saLen_le {sa : List UInt8} (h : Padded sa) : byte sa 0 ≤ sa.length := by
  rw [h, saSize]
  split
  · rw [roundup_eq _ (byte_lt sa 0)]
    omega
  · next hzero =>
    have : byte sa 0 = 0 := by simpa using hzero
    omega

theorem mem_of_getD {blk : List (Option (List UInt8))} {i : ℕ} {sa : List UInt8}
    (h : blk.getD i none = some sa) : some sa ∈ blk := by
  rw [List.getD_eq_getElem?_getD] at h
  cases hget : blk[i]? with
  | none => rw [hget] at h; cases h
  | some b =>
    rw [hget, Option.getD_some] at h
    exact h ▸ List.mem_of_getElem? hget

theorem block_cons_some (sa : List UInt8) (blk : List (Option (List UInt8))) :
    block (some sa :: blk) = sa ++ block blk := rfl

/-- The structures before a place, the one at the place, and the rest. -/
theorem block_eq {sa : List UInt8} : ∀ (blk : List (Option (List UInt8))) (i : ℕ),
    blk.getD i none = some sa → ∃ rest, block blk = block (blk.take i) ++ (sa ++ rest) := by
  intro blk
  induction blk with
  | nil => intro i h; cases h
  | cons b blk ih =>
    intro i h
    cases i with
    | zero =>
      have hb : b = some sa := h
      exact ⟨block blk, by rw [hb]; rfl⟩
    | succ i =>
      obtain ⟨rest, hrest⟩ := ih i h
      refine ⟨rest, ?_⟩
      calc block (b :: blk) = b.getD [] ++ block blk := rfl
        _ = (b.getD [] ++ block (blk.take i)) ++ (sa ++ rest) := by
          rw [hrest, List.append_assoc]

/-- The loop of `get_rtaddrs` finds each structure behind those before it. -/
theorem rtaddrs_getD {mem : List UInt8} {addrs : ℕ} : ∀ (blk : List (Option (List UInt8)))
    (i j : ℕ) (pre post : List UInt8), mem = pre ++ (block blk ++ post) →
    (∀ j < blk.length, addrs.testBit (i + j) = (blk.getD j none).isSome) →
    (∀ sa, some sa ∈ blk → Padded sa) →
    (rtaddrs mem addrs blk.length i pre.length).getD j none =
      (blk.getD j none).map fun _ => pre.length + (block (blk.take j)).length := by
  intro blk
  induction blk with
  | nil => intro i j pre post _ _ _; rfl
  | cons b blk ih =>
    intro i j pre post hmem hbits hpadded
    have hbit : addrs.testBit i = b.isSome := hbits 0 (Nat.succ_pos _)
    have htail : ∀ j < blk.length, addrs.testBit (i + 1 + j) = (blk.getD j none).isSome := by
      intro j hj
      rw [Nat.add_assoc, Nat.add_comm 1 j]
      exact hbits (j + 1) (Nat.succ_lt_succ hj)
    have hrest : ∀ sa, some sa ∈ blk → Padded sa :=
      fun sa hsa => hpadded sa (List.mem_cons_of_mem b hsa)
    cases b with
    | none =>
      have hset : addrs.testBit i = false := hbit
      rw [List.length_cons, rtaddrs, hset]
      cases j with
      | zero => rfl
      | succ j => exact ih (i + 1) j pre post hmem htail hrest
    | some sa =>
      have hset : addrs.testBit i = true := hbit
      have hpad : Padded sa := hpadded sa List.mem_cons_self
      have hmem' : mem = pre ++ (sa ++ (block blk ++ post)) := by
        rw [hmem, block_cons_some, List.append_assoc]
      have hlen : saLen mem pre.length = byte sa 0 := by
        have hat := byte_append_add pre (sa ++ (block blk ++ post)) 0
        rw [← hmem', Nat.add_zero, byte_append hpad.length_pos] at hat
        exact hat
      rw [List.length_cons, rtaddrs, hset, hlen, ← hpad, ← List.length_append]
      cases j with
      | zero => rfl
      | succ j =>
        have hnext := ih (i + 1) j (pre ++ sa) post (by rw [hmem', List.append_assoc]) htail hrest
        refine hnext.trans (congrArg (Option.map · _) (funext fun _ => ?_))
        rw [List.take_succ_cons, block_cons_some, List.length_append, List.length_append,
          Nat.add_assoc]

/-- Where in a message with a header of `hdr` bytes the structure at the place `i` stands. -/
def saAt (hdr : ℕ) (blk : List (Option (List UInt8))) (i : ℕ) : ℕ :=
  hdr + (block (blk.take i)).length

section Carries

variable {o : Order} {hdr i : ℕ} {bytes pre post mem : List UInt8}
  {blk : List (Option (List UInt8))}

/-- **`get_rtaddrs` finds the structures that a message carries**, wherever the message
stands. -/
theorem Carries.rtiInfo_eq (h : Carries o hdr bytes blk) (hhdr : 8 ≤ hdr)
    (hmem : mem = pre ++ (bytes ++ post)) :
    rtiInfo o mem hdr pre.length i =
      (blk.getD i none).map fun _ => pre.length + saAt hdr blk i := by
  obtain ⟨front, rest, hfront, hbytes⟩ := h.layout
  have hlong : 8 ≤ bytes.length := by
    rw [hbytes, List.length_append]
    omega
  have haddrs : ifmAddrs o mem pre.length = get o bytes 4 4 := by
    rw [ifmAddrs, hmem, get_append_add, get_append (by omega)]
  have hat := @rtaddrs_getD mem (get o bytes 4 4) blk 0 i (pre ++ front) (rest ++ post)
    (by rw [hmem, hbytes]; simp)
    (fun j hj => by rw [Nat.zero_add]; exact h.bits j (h.length_eq ▸ hj)) h.padded
  rw [h.length_eq, List.length_append, hfront] at hat
  rw [rtiInfo, haddrs, getRtaddrs, hat]
  simp only [saAt, Nat.add_assoc]

/-- The flags of a message are read where it stands. -/
theorem Carries.flags_at (h : Carries o hdr bytes blk) (hhdr : 12 ≤ hdr)
    (hmem : mem = pre ++ (bytes ++ post)) : ifmFlags o mem pre.length = ifmFlags o bytes 0 := by
  obtain ⟨front, rest, hfront, hbytes⟩ := h.layout
  have hlen : 12 ≤ bytes.length := by
    rw [hbytes, List.length_append]
    omega
  rw [ifmFlags, ifmFlags, hmem, get_append_add, get_append (by omega), Nat.zero_add]

/-- The structure stands where it is found. -/
theorem Carries.mem_eq {sa : List UInt8} (h : Carries o hdr bytes blk)
    (hmem : mem = pre ++ (bytes ++ post)) (hsa : blk.getD i none = some sa) :
    ∃ pre' post', mem = pre' ++ (sa ++ post') ∧ pre'.length = pre.length + saAt hdr blk i := by
  obtain ⟨front, rest, hfront, hbytes⟩ := h.layout
  obtain ⟨tail, htail⟩ := block_eq blk i hsa
  refine ⟨pre ++ (front ++ block (blk.take i)), tail ++ (rest ++ post), ?_, ?_⟩
  · rw [hmem, hbytes, htail]
    simp
  · rw [List.length_append, List.length_append, hfront, saAt]

end Carries

/-- The members of the link-level address of an interface, wherever it stands. -/
theorem Link.members_at {abi : Abi} (l : Link abi) {mem pre post : List UInt8}
    (hmem : mem = pre ++ (l.sdl ++ post)) :
    saFamily mem pre.length = afLink ∧ sdlIndex abi.order mem pre.length = l.index ∧
      sdlNlen mem pre.length = l.name.length ∧
      slice mem (sdlData pre.length) l.name.length = l.name := by
  have hlen := l.le_length_sdl
  have hpos := List.length_pos_of_ne_nil l.name_ne
  refine ⟨?_, ?_, ?_, ?_⟩
  · rw [saFamily, hmem, byte_append_add, byte_append (by omega)]
    exact l.family_eq
  · rw [sdlIndex, hmem, get_append_add, get_append (by omega)]
    exact l.index_eq
  · rw [sdlNlen, hmem, byte_append_add, byte_append (by omega)]
    exact l.nlen_eq
  · rw [sdlData, hmem, slice_append_add, slice_append (by omega)]
    exact l.data_eq

/-! ### Two interfaces -/

/-- The link-level address of `lo0`, or of `lo1`. -/
def loSdl (up : Bool) : List UInt8 :=
  [20, 18, cond up 1 2, 0, 24, 3, 0, 0, 0x6c, 0x6f, cond up 0x30 0x31] ++ List.replicate 13 0

def loHeader (up : Bool) : List UInt8 :=
  [192, 0, 5, 14, 0x10, 0, 0, 0, cond up 0x49 0x48, 0x80] ++ List.replicate 158 0

/-- The message about `lo0`, which is up, or about `lo1`, which is not. -/
def loInfo (up : Bool) : Link amd64 where
  bytes := loHeader up ++ loSdl up
  msglen_eq := by cases up <;> decide +kernel
  four_le := by cases up <;> decide +kernel
  index := cond up 1 2
  name := [0x6c, 0x6f, cond up 0x30 0x31]
  blk := [none, none, none, none, some (loSdl up), none, none, none]
  sdl := loSdl up
  type_eq := by cases up <;> decide +kernel
  carries :=
    { length_eq := rfl
      layout := ⟨loHeader up, [], by cases up <;> decide +kernel, by cases up <;> decide +kernel⟩
      bits := by cases up <;> decide +kernel
      padded := by
        intro sa hsa
        have heq : sa = loSdl up := by simpa using hsa
        subst heq
        cases up <;> exact rfl }
  ifp := rfl
  family_eq := by cases up <;> decide
  index_eq := by cases up <;> decide
  nlen_eq := by cases up <;> decide
  data_eq := by cases up <;> decide
  index_ne := by cases up <;> decide
  name_ne := by cases up <;> decide
  name_lt := by cases up <;> decide
  nul := by cases up <;> decide

end TcpIp.Route
