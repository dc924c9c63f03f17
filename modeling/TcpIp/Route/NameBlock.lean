import TcpIp.Lib.TwoEnded
import TcpIp.Route.NameIndex
import TcpIp.Route.Rtaddrs

/-!
# The block of `if_nameindex`

`if_nameindex` allocates as many bytes as the interface list has, stores the structures that it
returns from the start of this block on and the names from its end on, and looks nowhere whether
the two meet.  The comment in the source calls the size an overestimate: a message about an
interface has a header and the link-level address with the name, and what is stored for it are
a structure and the name.

The function is given here for every size of a `u_long`, of the header and of the structure, with
every write that it makes to the block.

## Main definitions

* `Layout` — the sizes that the machine has.
* `ifNameindex` — the function, with the writes to the block.
* `Info`, `Item`, `dump` — a well-formed interface list.

## Main results

* `nameindex_sound` — **nothing is written outside of the block or over something else.**
* `ifNameindex_list_iff` — for the sizes of `TcpIp.Route.Abi`, the function of
  `TcpIp.Route.NameIndex` returns a list exactly if that is so.
-/

namespace TcpIp.Route.NameBlock

open Bytes Frames Rtaddrs TwoEnded

/-! ### The function -/

/-- What the machine fixes. -/
structure Layout where
  order : Order
  /-- `sizeof(u_long)` is `2 ^ ulong`. -/
  ulong : ℕ
  /-- `sizeof(struct if_msghdr)`. -/
  ifMsghdr : ℕ
  /-- `sizeof(struct if_nameindex)`. -/
  nameindex : ℕ
  two_le_ulong : 2 ≤ ulong
  /-- The member `ifm_addrs` is in the header. -/
  eight_le : 8 ≤ ifMsghdr
  double_le : 2 * nameindex ≤ ifMsghdr

/-- What has been stored: the block, and the structures with the names they point to. -/
structure Filled where
  block : TwoEnded.Block
  pairs : List (ℕ × List UInt8)
  deriving DecidableEq, Repr

section Function

variable (l : Layout) (mem : List UInt8)

/-- `rti_info[i]` of the message at `ifm`. -/
def rtiInfo (ifm i : ℕ) : Option ℕ :=
  (Rtaddrs.getRtaddrs (2 ^ l.ulong) mem rtaxMax (BitVec.ofNat 32 (ifmAddrs l.order mem ifm))
    (ifm + l.ifMsghdr)).1.getD i none

/-- The link-level address of the message at `ifm`, if it is about an interface and carries
one. -/
def linkAddr (ifm : ℕ) : Option ℕ :=
  if ifmType mem ifm = rtmIfinfo then
    match rtiInfo l mem ifm rtaxIfp with
    | some sa => if saFamily mem sa = afLink then some sa else none
    | none => none
  else none

/-- The body of the loop. -/
def addName (r : Filled) (ifm : ℕ) : Except Empty Filled :=
  match linkAddr l mem ifm with
  | none => .ok r
  | some sdl =>
    let nlen := sdlNlen mem sdl
    -- the name and its zero byte, and then the structure
    .ok ⟨r.block.takeBoth (nlen + 1) l.nameindex,
      r.pairs ++ [(sdlIndex l.order mem sdl, cstring (slice mem (sdlData sdl) nlen))]⟩

/-- `if_nameindex`, from what `net_rt_iflist` and `malloc` have returned.  The value is `none` if
the loop does not end. -/
def ifNameindex : Option Filled :=
  match scan (ifmMsglen l.order mem) (addName l mem) mem.length 0 mem.length
      ⟨.empty mem.length, []⟩ with
  | some (.ok (r, _)) =>
    -- the structure that marks the end
    some { r with block := r.block.takeFront l.nameindex }
  | _ => none

end Function

/-! ### Well-formed lists -/

/-- The bits of a header for the structures behind it. -/
def addrs (o : Order) (bytes : List UInt8) : BitVec 32 := BitVec.ofNat 32 (ifmAddrs o bytes 0)

/-- A message about an interface. -/
structure Info (l : Layout) extends Msg l.order where
  /-- The address structures. -/
  sas : ℕ → List UInt8
  type_eq : ifmType bytes 0 = rtmIfinfo
  layout : ∃ front rest, front.length = l.ifMsghdr ∧
    bytes = front ++ (Rtaddrs.block (addrs l.order bytes) sas rtaxMax ++ rest)
  fills : ∀ i < rtaxMax, (addrs l.order bytes).getLsbD i = true → Fills (2 ^ l.ulong) (sas i)
  /-- A link-level address has room for its name. -/
  room : (addrs l.order bytes).getLsbD rtaxIfp = true → saFamily (sas rtaxIfp) 0 = afLink →
    8 + sdlNlen (sas rtaxIfp) 0 ≤ (sas rtaxIfp).length

/-- A message: about an interface, or another one. -/
inductive Item (l : Layout) where
  | info (m : Info l)
  | other (m : Msg l.order) (type_ne : ifmType m.bytes 0 ≠ rtmIfinfo)

section Dump

variable {l : Layout}

def Item.msg : Item l → Msg l.order
  | .info m => m.toMsg
  | .other m _ => m

def Item.bytes (i : Item l) : List UInt8 := i.msg.bytes

/-- The list in memory. -/
def dump (items : List (Item l)) : List UInt8 := (items.map Item.bytes).flatten

/-! ### One message -/

variable {mem pre post : List UInt8}

theorem Info.le_length (m : Info l) : l.ifMsghdr ≤ m.bytes.length := by
  obtain ⟨front, rest, hfront, hbytes⟩ := m.layout
  rw [hbytes, List.length_append]
  omega

theorem Info.addrs_at (m : Info l) (hmem : mem = pre ++ (m.bytes ++ post)) :
    BitVec.ofNat 32 (ifmAddrs l.order mem pre.length) = addrs l.order m.bytes := by
  have hhdr := l.eight_le
  have hlen := m.le_length
  rw [addrs, ifmAddrs, ifmAddrs, hmem, get_append_add, get_append (by omega), Nat.zero_add]

/-- Where the structure for an interface is found. -/
theorem Info.rtiInfo_at (m : Info l) (hmem : mem = pre ++ (m.bytes ++ post)) :
    rtiInfo l mem pre.length rtaxIfp = none ∨
      (addrs l.order m.bytes).getLsbD rtaxIfp = true ∧
      ∃ pre' post', mem = pre' ++ (m.sas rtaxIfp ++ post') ∧
        rtiInfo l mem pre.length rtaxIfp = some pre'.length ∧
        l.ifMsghdr + (m.sas rtaxIfp).length ≤ m.bytes.length := by
  obtain ⟨front, rest, hfront, hbytes⟩ := m.layout
  have hblock : mem = (pre ++ front) ++
      (Rtaddrs.block (addrs l.order m.bytes) m.sas rtaxMax ++ (rest ++ post)) := by
    rw [hmem]
    nth_rewrite 1 [hbytes]
    simp
  have hfound := getRtaddrs_eq hblock m.fills
  rw [List.length_append, hfront] at hfound
  rw [rtiInfo, m.addrs_at hmem, hfound]
  by_cases hbit : (addrs l.order m.bytes).getLsbD rtaxIfp = true
  · refine .inr ⟨hbit, ?_⟩
    obtain ⟨tail, htail⟩ := @block_split (addrs l.order m.bytes) m.sas rtaxIfp rtaxMax
      (by decide) hbit
    refine ⟨(pre ++ front) ++ Rtaddrs.block (addrs l.order m.bytes) m.sas rtaxIfp,
      tail ++ (rest ++ post), ?_, ?_, ?_⟩
    · rw [hblock, htail]
      simp
    · simp [List.getD_eq_getElem?_getD, hbit, hfront, show rtaxIfp < rtaxMax by decide,
        Nat.add_assoc]
    · have hlen := congrArg List.length hbytes
      rw [htail] at hlen
      simp only [List.length_append] at hlen
      omega
  · refine .inl ?_
    simp [List.getD_eq_getElem?_getD, hbit, show rtaxIfp < rtaxMax by decide]

theorem Info.le_length_sas (m : Info l) (hbit : (addrs l.order m.bytes).getLsbD rtaxIfp = true) :
    4 ≤ (m.sas rtaxIfp).length := by
  have hfills := m.fills rtaxIfp (by decide) hbit
  have hpow : 2 ^ 2 ≤ 2 ^ l.ulong := Nat.pow_le_pow_right (by decide) l.two_le_ulong
  have hle := Nat.le_of_dvd hfills.length_pos hfills.dvd
  omega

/-- What is stored for a message about an interface takes less than the message is long, by the
size of a structure. -/
theorem Info.linkAddr_at (m : Info l) (hmem : mem = pre ++ (m.bytes ++ post)) {sdl : ℕ}
    (hsdl : linkAddr l mem pre.length = some sdl) :
    sdlNlen mem sdl + 1 + 2 * l.nameindex ≤ m.bytes.length := by
  have htype : ifmType mem pre.length = rtmIfinfo := (m.type_at hmem).trans m.type_eq
  rw [linkAddr, if_pos htype] at hsdl
  rcases m.rtiInfo_at hmem with hnone | ⟨hbit, pre', post', hmem', hsome, hlen⟩
  · rw [hnone] at hsdl
    cases hsdl
  · have hsas := m.le_length_sas hbit
    have hdouble := l.double_le
    have hfamily : saFamily mem pre'.length = saFamily (m.sas rtaxIfp) 0 := by
      rw [saFamily, saFamily, hmem', byte_append_add, byte_append (by omega), Nat.zero_add]
    simp only [hsome, hfamily] at hsdl
    split at hsdl
    · next hlink =>
      obtain rfl := Option.some.inj hsdl
      have hroom := m.room hbit hlink
      have hnlen : sdlNlen mem pre'.length = sdlNlen (m.sas rtaxIfp) 0 := by
        rw [sdlNlen, sdlNlen, hmem', byte_append_add, byte_append (by omega), Nat.zero_add]
      omega
    · cases hsdl

/-- Nothing is found in another message. -/
theorem linkAddr_other {m : Msg l.order} (htype : ifmType m.bytes 0 ≠ rtmIfinfo)
    (hmem : mem = pre ++ (m.bytes ++ post)) : linkAddr l mem pre.length = none := by
  have hne : ifmType mem pre.length ≠ rtmIfinfo := by
    rw [m.type_at hmem]
    exact htype
  rw [linkAddr, if_neg hne]

/-! ### A whole list -/

/-- What holds at the start of a turn: the part of the block that is free is at least as large
as the messages that are left.  Once a message about an interface has been seen, there is also
room for a structure. -/
structure Turn (mem : List UInt8) (pos : ℕ) (items : List (Item l)) (r : Filled) : Prop where
  placed : ∃ pre, mem = pre ++ dump items ∧ pre.length = pos
  inv : r.block.Inv mem.length
  count : r.block.front = l.nameindex * r.pairs.length
  room : (dump items).length ≤ r.block.back - r.block.front
  marked : (∃ m, .info m ∈ items) ∨
    (dump items).length + l.nameindex ≤ r.block.back - r.block.front

/-- **One turn.** -/
theorem Turn.step {pos : ℕ} {i : Item l} {items : List (Item l)} {r : Filled}
    (h : Turn mem pos (i :: items) r) :
    Ends (fun _ => False) (Turn mem (pos + i.bytes.length) items) (addName l mem r pos) := by
  obtain ⟨⟨pre, hmem, rfl⟩, hinv, hcount, hroom, hmarked⟩ := h
  have hdump : dump (i :: items) = i.bytes ++ dump items := rfl
  rw [hdump, List.length_append] at hroom hmarked
  rw [hdump] at hmem
  have hplaced : ∃ pre', mem = pre' ++ dump items ∧ pre'.length = pre.length + i.bytes.length :=
    ⟨pre ++ i.bytes, by rw [hmem, List.append_assoc], List.length_append⟩
  cases i with
  | other m htype =>
    rw [addName, linkAddr_other htype hmem]
    refine ⟨hplaced, hinv, hcount, by omega, ?_⟩
    rcases hmarked with ⟨m', hm'⟩ | hmarked
    · rcases List.mem_cons.mp hm' with hhead | htail
      · cases hhead
      · exact .inl ⟨m', htail⟩
    · exact .inr (by omega)
  | info m =>
    have hlen : l.ifMsghdr ≤ (Item.info m).bytes.length := m.le_length
    have hdouble := l.double_le
    cases hlink : linkAddr l mem pre.length with
    | none =>
      rw [addName, hlink]
      exact ⟨hplaced, hinv, hcount, by omega, .inr (by omega)⟩
    | some sdl =>
      have hless : sdlNlen mem sdl + 1 + 2 * l.nameindex ≤ (Item.info m).bytes.length :=
        m.linkAddr_at hmem hlink
      rw [addName, hlink]
      have hback : (r.block.takeBoth (sdlNlen mem sdl + 1) l.nameindex).back -
          (r.block.takeBoth (sdlNlen mem sdl + 1) l.nameindex).front =
          r.block.back - r.block.front - (sdlNlen mem sdl + 1) - l.nameindex := by
        simp only [Block.takeBoth, Block.takeFront, Block.takeBack]
        omega
      refine ⟨hplaced, hinv.takeBoth (Nat.succ_pos _) (by omega), ?_, by rw [hback]; omega,
        .inr (by rw [hback]; omega)⟩
      rw [List.length_append, List.length_singleton, Nat.mul_succ, ← hcount]
      rfl

/-- **The two ends of the block never meet.**  For every interface list with a message about an
interface the function ends; the structures, with the one that marks the end, stand at the start
of the block and the names at its end, nothing is written outside of the block, and no two writes
overlap. -/
theorem nameindex_sound (l : Layout) (items : List (Item l)) (hinfo : ∃ m, .info m ∈ items) :
    ∃ r, ifNameindex l (dump items) = some r ∧
      r.block.front = l.nameindex * (r.pairs.length + 1) ∧
      (r.block.front : ℤ) ≤ r.block.back ∧ r.block.Sound (dump items).length := by
  have hloop := @scan_messages l.order (Item l) Filled Empty Item.msg (dump items)
    (addName l (dump items)) (fun r pos _ => addName l (dump items) r pos) items
    ⟨.empty (dump items).length, []⟩ rfl fun _ _ _ _ _ _ => rfl
  have hends := @run_ends UInt8 (Item l) Filled Empty Item.bytes
    (fun r pos _ => addName l (dump items) r pos) (fun _ => False) (Turn (dump items))
    (fun _ _ _ _ h => h.step) items 0 ⟨.empty (dump items).length, []⟩
    ⟨⟨[], rfl, rfl⟩, Block.inv_empty _, rfl, by simp [Block.empty], .inl hinfo⟩
  cases hrun : run Item.bytes (fun r pos _ => addName l (dump items) r pos) 0 items
      ⟨.empty (dump items).length, []⟩ with
  | error x => exact x.elim
  | ok r =>
    rw [hrun] at hends
    rw [show (fun c : Item l => c.msg.bytes) = Item.bytes from rfl, hrun] at hloop
    obtain ⟨-, hinv, hcount, -, hmarked⟩ := hends
    have hroom : (r.block.front + l.nameindex : ℤ) ≤ r.block.back := by
      rcases hmarked with ⟨m, hm⟩ | hmarked
      · cases hm
      · omega
    refine ⟨_, by rw [ifNameindex, hloop]; rfl, ?_, ?_, (hinv.takeFront hroom).sound⟩
    · rw [Nat.mul_succ, ← hcount]
      rfl
    · exact (hinv.takeFront hroom).le

end Dump

/-! ### The loopback interface -/

/-- The sizes of `TcpIp.Route.Abi`, where a `u_long` has eight bytes. -/
def Layout.ofAbi (abi : Abi) : Layout where
  order := abi.order
  ulong := 3
  ifMsghdr := abi.ifMsghdr
  nameindex := sizeofNameindex
  two_le_ulong := by decide
  eight_le := by
    have := abi.le_ifMsghdr
    omega
  double_le := abi.le_ifMsghdr

def lo0 : Info (.ofAbi amd64) where
  toMsg := (loInfo true).toMsg
  sas := fun _ => loSdl true
  type_eq := (loInfo true).type_eq
  layout := ⟨loHeader true, [], by decide +kernel, by decide +kernel⟩
  fills := fun _ _ _ => ⟨by decide +kernel, by decide +kernel, by decide +kernel, by decide +kernel⟩
  room := fun _ _ => by decide +kernel

theorem nameindex_sound_lo0 :
    ∃ r, ifNameindex (.ofAbi amd64) (dump [.info lo0]) = some r ∧ r.pairs = [(1, [108, 111, 48])] ∧
      r.block.Sound 192 := by
  obtain ⟨r, hr, -, -, hsound⟩ := nameindex_sound (.ofAbi amd64) [.info lo0]
    ⟨lo0, List.mem_cons_self⟩
  have hpairs : (ifNameindex (.ofAbi amd64) (dump [.info lo0])).map Filled.pairs =
      some [(1, [108, 111, 48])] := by decide +kernel
  rw [hr, Option.map_some, Option.some.injEq] at hpairs
  exact ⟨r, hr, hpairs, hsound⟩

/-! ### The other model

In `TcpIp.Route.NameIndex` the loop stops where there is no room; here it goes on. -/

section Corrupt

variable {abi : Abi} {mem : List UInt8}

theorem linkAddr_ofAbi (mem : List UInt8) (ifm : ℕ) :
    linkAddr (.ofAbi abi) mem ifm = Route.linkAddr abi mem ifm := by
  have hrti : ∀ i, rtiInfo (.ofAbi abi) mem ifm i =
      Route.rtiInfo abi.order mem abi.ifMsghdr ifm i := by
    intro i
    rw [Route.rtiInfo, getRtaddrs_eq_fst]
    rfl
  cases hsa : Route.rtiInfo abi.order mem abi.ifMsghdr ifm rtaxIfp with
  | none => simp only [linkAddr, Route.linkAddr, hrti, hsa]
  | some sa => simp only [linkAddr, Route.linkAddr, hrti, hsa]

/-- The states of the two loops. -/
structure Same (n : ℕ) (b : Route.Block) (r : Filled) : Prop where
  ifptr_eq : b.ifptr = r.block.front
  namptr_eq : b.namptr = r.block.back
  pairs_eq : b.pairs = r.pairs
  inv : r.block.Inv n

/-- **One turn of both loops**: where the one stops, the other writes where it should not. -/
theorem same_step {n : ℕ} {b : Route.Block} {r : Filled} (h : Same n b r) (ifm : ℕ) :
    Ends (fun _ => Ends (fun _ => False) (fun r' => ¬ r'.block.Sound n)
        (addName (.ofAbi abi) mem r ifm))
      (fun b' => Ends (fun _ => False) (Same n b') (addName (.ofAbi abi) mem r ifm))
      (Route.addName abi mem b ifm) := by
  obtain ⟨hifptr, hnamptr, hpairs, hinv⟩ := h
  rw [addName, Route.addName, linkAddr_ofAbi]
  cases Route.linkAddr abi mem ifm with
  | none => exact ⟨hifptr, hnamptr, hpairs, hinv⟩
  | some sdl =>
    have hiff := @Block.sound_takeBoth_iff n sizeofNameindex (sdlNlen mem sdl + 1) r.block hinv
      (Nat.succ_pos _) (by decide)
    simp only [Route.Block.Room, hifptr, hnamptr]
    split
    · next hroom =>
      refine ⟨rfl, rfl, by rw [hpairs]; rfl, hinv.takeBoth (Nat.succ_pos _) ?_⟩
      exact hroom
    · next hroom => exact fun hsound => hroom (hiff.mp hsound)

/-- What is wrong stays wrong. -/
theorem addName_unsound {l : Layout} {n : ℕ} {r : Filled} (h : ¬ r.block.Sound n) (ifm : ℕ) :
    Ends (fun _ => False) (fun r' => ¬ r'.block.Sound n) (addName l mem r ifm) := by
  rw [addName]
  cases linkAddr l mem ifm with
  | none => exact h
  | some sdl => exact fun hsound => h (hsound.of_append (List.append_assoc ..))

theorem ifNameindex_eq_some {l : Layout} {r : Filled} :
    ifNameindex l mem = some r ↔ ∃ r₀ left,
      scan (ifmMsglen l.order mem) (addName l mem) mem.length 0 mem.length
        ⟨.empty mem.length, []⟩ = some (.ok (r₀, left)) ∧
      { r₀ with block := r₀.block.takeFront l.nameindex } = r := by
  rw [ifNameindex]
  split
  · next r₀ left hscan => simp [hscan]
  · next hscan =>
    refine iff_of_false (by simp) ?_
    rintro ⟨r₀, left, hscan', -⟩
    exact hscan r₀ left hscan'

theorem ifNameindex_eq_list {net : ℕ → Option (List UInt8)} (hnet : net 0 = some mem)
    {ps : List (ℕ × List UInt8)} :
    Route.ifNameindex abi net true = some (.list ps) ↔ ∃ b left,
      forMessages abi mem (Route.addName abi mem) ⟨0, mem.length, []⟩ = some (.ok (b, left)) ∧
      b.Room ∧ b.pairs = ps := by
  simp only [Route.ifNameindex, hnet, if_true]
  split
  · next hscan => simp [hscan]
  · next hscan => simp [hscan]
  · next b left hscan =>
    rw [hscan]
    split
    · next hroom => simp [hroom]
    · next hroom => simp [hroom]

/-- **The function returns a list exactly if its writes do no harm**, for every interface list,
well-formed or not. -/
theorem ifNameindex_list_iff {net : ℕ → Option (List UInt8)} (hnet : net 0 = some mem)
    (ps : List (ℕ × List UInt8)) :
    Route.ifNameindex abi net true = some (.list ps) ↔
      ∃ r, ifNameindex (.ofAbi abi) mem = some r ∧ r.block.Sound mem.length ∧ r.pairs = ps := by
  have hsame : Same mem.length ⟨0, mem.length, []⟩ ⟨.empty mem.length, []⟩ :=
    ⟨rfl, rfl, rfl, Block.inv_empty _⟩
  obtain ⟨hthere, hback⟩ := @scan_related Route.Block Unit Filled Empty (ifmMsglen abi.order mem)
    (Route.addName abi mem) (addName (.ofAbi abi) mem) (Same mem.length)
    (fun r => ¬ r.block.Sound mem.length) (fun _ _ ifm h => same_step h ifm)
    (fun _ ifm h => addName_unsound h ifm) mem.length 0 mem.length _ _ hsame
  rw [ifNameindex_eq_list hnet]
  constructor
  · rintro ⟨b, left, hscan, hroom, rfl⟩
    obtain ⟨r, hr, hifptr, hnamptr, hpairs, hinv⟩ := hthere b left hscan
    rw [Route.Block.Room, hifptr, hnamptr] at hroom
    exact ⟨_, ifNameindex_eq_some.mpr ⟨r, left, hr, rfl⟩, (hinv.takeFront hroom).sound, hpairs.symm⟩
  · rintro ⟨r, hr, hsound, rfl⟩
    obtain ⟨r₀, left, hscan, rfl⟩ := ifNameindex_eq_some.mp hr
    obtain ⟨b, hb, hifptr, hnamptr, hpairs, hinv⟩ :=
      hback r₀ left hscan (not_not.mpr (hsound.of_append rfl))
    refine ⟨b, left, hb, ?_, hpairs⟩
    rw [Route.Block.Room, hifptr, hnamptr]
    exact (Block.sound_takeFront_iff hinv).mp hsound

end Corrupt

end TcpIp.Route.NameBlock
