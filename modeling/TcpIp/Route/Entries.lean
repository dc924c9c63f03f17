import TcpIp.Route.IfiInfo

/-!
# What is in an entry

An entry that `get_ifi_info` of `route/` makes for an interface holds its name, and its hardware
address with the number of its bytes.  Both are from the link-level address of the interface, in
which the name stands directly in front of the hardware address.

The number of bytes is not bounded by the room that is there, although what is copied is; and the
name is printed as a string, so that it goes on into the hardware address if that does not start
with a zero.

## Main definitions

* `Info`, `Item` — a message about an interface, with any link-level address, and a message.
* `owners` — the messages that the entries of the list are from.
* `Consistent` — what is to be in an entry.
* `Fine` — the condition on the link-level address.

## Main results

* `printed_eq_iff` — the name that is printed is the right one exactly if it ends there.
* `entries_made` — an entry is right exactly if its link-level address is fine.
-/

namespace TcpIp.Route.Entries

open Bytes Frames

variable {abi : Abi}

/-! ### Messages -/

/-- A message about an interface. -/
structure Info (abi : Abi) extends Msg abi.order where
  blk : List (Option (List UInt8))
  type_eq : ifmType bytes 0 = rtmIfinfo
  carries : Carries abi.order abi.ifMsghdr bytes blk
  /-- A link-level address holds the name and the hardware address that it says it holds. -/
  link_le : ∀ sdl, blk.getD rtaxIfp none = some sdl → saFamily sdl 0 = afLink →
    sdlData 0 + sdlNlen sdl 0 + sdlAlen sdl 0 ≤ sdl.length

namespace Info

variable (i : Info abi)

def flags : ℕ := ifmFlags abi.order i.bytes 0

/-- The address structure at the place `RTAX_IFP`. -/
def ifp : Option (List UInt8) := i.blk.getD rtaxIfp none

/-- The link-level address. -/
def link : Option (List UInt8) := i.ifp.filter fun sa => saFamily sa 0 = afLink

/-- There is an entry for the interface. -/
def starts : Bool := i.flags.testBit iffUp && i.ifp.isSome

/-- Where `sdl_data` stands in the message. -/
def dataAt : ℕ := sdlData (saAt abi.ifMsghdr i.blk rtaxIfp)

end Info

/-- The name in a link-level address. -/
def nameOf (sdl : List UInt8) : List UInt8 := slice sdl (sdlData 0) (sdlNlen sdl 0)

/-- The hardware address. -/
def hwaddr (sdl : List UInt8) : List UInt8 :=
  slice sdl (sdlData 0 + sdlNlen sdl 0) (sdlAlen sdl 0)

/-- A message of the list. -/
inductive Item (abi : Abi) where
  | info (i : Info abi)
  | addr (a : Newaddr abi)

def Item.msg : Item abi → Msg abi.order
  | .info i => i.toMsg
  | .addr a => a.toMsg

def Item.bytes (m : Item abi) : List UInt8 := m.msg.bytes

/-- The list. -/
def dump (ms : List (Item abi)) : List UInt8 := (ms.map Item.bytes).flatten

/-! ### Whose entry it is -/

/-- A message about an interface, and what stands behind it. -/
structure Owner (abi : Abi) where
  info : Info abi
  after : List UInt8

/-- What stands in memory from `sdl_data` on. -/
def Owner.data (o : Owner abi) : List UInt8 := (o.info.bytes ++ o.after).drop o.info.dataAt

/-- The messages for which there are entries. -/
def starting : List (Item abi) → List (Owner abi)
  | [] => []
  | .info i :: ms => if i.starts then ⟨i, dump ms⟩ :: starting ms else starting ms
  | .addr _ :: ms => starting ms

/-- The messages that the entries are from.  The last entry is given by its message, and by whether
it has an address; an entry for a further address is from the same message. -/
def owners (doaliases : Bool) : Option (Owner abi × Bool) → List (Item abi) → List (Owner abi)
  | _, [] => []
  | cur, .info i :: ms =>
    if i.starts then ⟨i, dump ms⟩ :: owners doaliases (some (⟨i, dump ms⟩, false)) ms
    else owners doaliases cur ms
  | none, .addr _ :: ms => owners doaliases none ms
  | some (o, false), .addr a :: ms => owners doaliases (some (o, (a.sa rtaxIfa).isSome)) ms
  | some (o, true), .addr a :: ms =>
    if doaliases then o :: owners doaliases (some (o, (a.sa rtaxIfa).isSome)) ms
    else owners doaliases (some (o, true)) ms

/-- **What is to be in an entry**: no more bytes of the hardware address than there is room for, and
as many as it says; and the name, as far as there is room for it. -/
structure Consistent (i : Info abi) (e : IfiInfo) : Prop where
  hlen_le : e.hlen ≤ ifiHaddr
  length_haddr : e.haddr.length = e.hlen
  haddr_eq : e.haddr <+: (i.link.map hwaddr).getD []
  name_eq : ∀ sdl, i.link = some sdl → e.name = (nameOf sdl).take (ifiName - 1)

/-! ### The condition -/

/-- The string that starts with a name of `n` bytes ends there, or is cut off before.  A name with
a zero in it is printed with spaces in front, which is right if there are spaces anyway. -/
def NameEnds (n : ℕ) (data : List UInt8) : Prop :=
  0 ∉ data.take n ∧ (ifiName - 1 ≤ n ∨ byte data n = 0) ∨
    (data.take n).take (ifiName - 1) = List.replicate (ifiName - 1) 0x20

instance (n : ℕ) (data : List UInt8) : Decidable (NameEnds n data) :=
  inferInstanceAs (Decidable (_ ∨ _))

/-- **The condition on a link-level address**: there is room for the hardware address, and there is
a name, which ends there. -/
def Fine (o : Owner abi) : Prop :=
  ∀ sdl, o.info.link = some sdl →
    sdlAlen sdl 0 ≤ ifiHaddr ∧ 0 < sdlNlen sdl 0 ∧ NameEnds (sdlNlen sdl 0) o.data

/-! ### The name -/

section Name

variable {n k : ℕ} {data name rest : List UInt8}

/-- What is printed for a name of `n` bytes. -/
def printed (n : ℕ) (data : List UInt8) : List UInt8 :=
  (List.replicate (n - (cstring data).length) 0x20 ++ cstring data).take (ifiName - 1)

/-- A list that stays the same when it is moved on and filled up in front has one item only. -/
theorem eq_replicate_of_shift {α : Type*} {a : α} {x z : List α} (hk : 0 < k)
    (h : (List.replicate k a ++ (x ++ z)).take x.length = x) : x = List.replicate x.length a := by
  have hall : ∀ j < x.length, x[j]? = some a := by
    intro j
    induction j using Nat.strongRecOn with
    | ind j ih =>
      intro hj
      rw [← h, List.getElem?_take_of_lt hj]
      rcases Nat.lt_or_ge j k with hlt | hge
      · rw [List.getElem?_append_left (by rwa [List.length_replicate]),
          List.getElem?_replicate_of_lt hlt]
      · have hback := ih (j - k) (by omega) (by omega)
        rw [List.getElem?_append_right (by rwa [List.length_replicate]), List.length_replicate,
          List.getElem?_append_left (by omega), hback]
  refine List.eq_replicate_of_mem fun b hb => ?_
  obtain ⟨j, hj, rfl⟩ := List.mem_iff_getElem.mp hb
  have hat := hall j hj
  rw [List.getElem?_eq_getElem hj] at hat
  exact Option.some.inj hat

theorem zero_notMem_cstring (bs : List UInt8) : 0 ∉ cstring bs := by
  intro hmem
  simpa using List.mem_takeWhile_imp hmem

/-- The string ends at once exactly if there is a zero. -/
theorem cstring_eq_nil_iff (hrest : 0 ∈ rest) : cstring rest = [] ↔ byte rest 0 = 0 := by
  cases rest with
  | nil => simp at hrest
  | cons b rest =>
    by_cases hb : b = 0
    · simp [hb, cstring, byte]
    · have hnat : b.toNat ≠ 0 := fun h => hb (UInt8.toNat_inj.mp h)
      simp [hb, cstring, byte, hnat]

/-- A name without a zero. -/
theorem printed_eq_iff_of_notMem (hzero : 0 ∉ name) (hrest : 0 ∈ rest) :
    printed name.length (name ++ rest) = name.take (ifiName - 1) ↔
      ifiName - 1 ≤ name.length ∨ byte (name ++ rest) name.length = 0 := by
  have hspaces : name.length - (name ++ cstring rest).length = 0 := by
    rw [List.length_append]
    omega
  have hbyte : byte (name ++ rest) name.length = byte rest 0 := byte_append_add name rest 0
  rw [printed, cstring_append hzero, hspaces, List.replicate_zero, List.nil_append, hbyte,
    ← cstring_eq_nil_iff hrest]
  rcases Nat.lt_or_ge name.length (ifiName - 1) with hlt | hge
  · rw [List.take_of_length_le (Nat.le_of_lt hlt), take_append_eq_iff (Nat.le_of_lt hlt)]
    exact or_congr ⟨fun h => Nat.le_of_eq h.symm, fun h => by omega⟩ Iff.rfl
  · exact iff_of_true (List.take_append_of_le_length hge) (.inl hge)

/-- The string in a name with a zero in it does not depend on what is behind the name. -/
theorem cstring_append_of_mem (hzero : 0 ∈ name) (rest : List UInt8) :
    cstring (name ++ rest) = cstring name ∧ (cstring name).length < name.length := by
  obtain ⟨tail, hname⟩ := exists_takeWhile_append (q := (· != 0)) hzero (by simp)
  have hlen : (cstring name).length < name.length := by
    rw [cstring]
    conv_rhs => rw [hname, List.length_append, List.length_cons]
    omega
  have hne : ¬ (name.takeWhile (· != 0)).length = name.length := Nat.ne_of_lt hlen
  exact ⟨by rw [cstring, List.takeWhile_append, if_neg hne]; rfl, hlen⟩

/-- A name with a zero. -/
theorem printed_eq_iff_of_mem (hzero : 0 ∈ name) (rest : List UInt8) :
    printed name.length (name ++ rest) = name.take (ifiName - 1) ↔
      name.take (ifiName - 1) = List.replicate (ifiName - 1) 0x20 := by
  obtain ⟨hstr, hlt⟩ := cstring_append_of_mem hzero rest
  have hk : 0 < name.length - (cstring name).length := by omega
  rw [printed, hstr]
  generalize name.length - (cstring name).length = k at hk
  have hsplit := List.take_append_drop (ifiName - 1) name
  constructor
  · intro h
    have hnot : 0 ∉ name.take (ifiName - 1) := by
      rw [← h]
      intro hmem
      rcases List.mem_append.mp (List.mem_of_mem_take hmem) with hsp | hcs
      · exact absurd (List.eq_of_mem_replicate hsp) (by decide)
      · exact zero_notMem_cstring name hcs
    have hfull : (name.take (ifiName - 1)).length = ifiName - 1 := by
      refine List.length_take_of_le (Nat.le_of_lt (Nat.lt_of_not_ge fun hle => ?_))
      rw [List.take_of_length_le hle] at hnot
      exact hnot hzero
    rw [← hsplit, cstring_append hnot, hsplit] at h
    have hshift := eq_replicate_of_shift hk (by rw [hfull]; exact h)
    rwa [hfull] at hshift
  · intro h
    have hnot : 0 ∉ name.take (ifiName - 1) := by
      rw [h]
      exact fun hmem => absurd (List.eq_of_mem_replicate hmem) (by decide)
    rw [← hsplit, cstring_append hnot, hsplit, h, ← List.append_assoc,
      List.replicate_append_replicate, List.take_append_of_le_length (by rw [List.length_replicate]; omega), List.take_replicate,
      Nat.min_eq_left (by omega)]

/-- **The name that is printed is the right one exactly if it ends there.** -/
theorem printed_eq_iff (hn : n ≤ data.length) (hzero : 0 ∈ data) :
    printed n data = (data.take n).take (ifiName - 1) ↔ NameEnds n data := by
  have hlen : (data.take n).length = n := List.length_take_of_le hn
  have hsplit := List.take_append_drop n data
  unfold NameEnds
  by_cases hname : 0 ∈ data.take n
  · have hiff := printed_eq_iff_of_mem hname (data.drop n)
    rw [hlen, hsplit] at hiff
    rw [hiff]
    exact ⟨.inr, fun h => h.resolve_left fun hnot => hnot.1 hname⟩
  · have hrest : 0 ∈ data.drop n := by
      rw [← hsplit] at hzero
      exact (List.mem_append.mp hzero).resolve_left hname
    have hiff := printed_eq_iff_of_notMem hname hrest
    rw [hlen, hsplit] at hiff
    rw [hiff]
    refine ⟨fun h => .inl ⟨hname, h⟩, fun h => ?_⟩
    rcases h with h | hspaces
    · exact h.2
    · have hlong := congrArg List.length hspaces
      rw [List.length_replicate, List.length_take, hlen] at hlong
      exact .inl (by omega)

end Name

/-! ### One message -/

section Message

variable {mem pre post : List UInt8} {i : Info abi} {e : IfiInfo}

/-- What a message does. -/
def Item.does (doaliases : Bool) (mem : List UInt8) (s : State) (pos : ℕ) :
    Item abi → Except Exit State
  | .info i =>
    if i.starts then
      (newIfi abi mem i.flags (pos + saAt abi.ifMsghdr i.blk rtaxIfp)).map fun ifi =>
        ⟨s.all, some ifi, i.flags⟩
    else .ok { s with flags := i.flags }
  | .addr a => newaddr doaliases (a.copy pos) s

theorem ifiBody_eq {doaliases : Bool} (m : Item abi) (hmem : mem = pre ++ (m.bytes ++ post))
    (s : State) : ifiBody abi doaliases mem s pre.length = m.does doaliases mem s pre.length := by
  have hhdr := abi.le_ifMsghdr
  cases m with
  | info i =>
    have htype := (i.type_at hmem).trans i.type_eq
    rw [ifiBody, if_pos htype, ifinfo, i.carries.flags_at (by omega) hmem,
      i.carries.rtiInfo_eq (by omega) hmem, Item.does, Info.starts, Info.ifp, ← Info.flags]
    cases i.flags.testBit iffUp with
    | false => rfl
    | true =>
      cases i.blk.getD rtaxIfp none with
      | none => rfl
      | some sa => rfl
  | addr a =>
    have htype := (a.type_at hmem).trans a.type_eq
    rw [ifiBody, htype, if_neg (by decide), if_pos rfl, rtiCopies_eq a hmem]
    rfl

/-- **The loop over the messages.** -/
theorem getIfiInfo_eq (doaliases : Bool) (ms : List (Item abi)) :
    getIfiInfo abi (dump ms) doaliases =
      some ((run Item.bytes (Item.does doaliases (dump ms)) 0 ms ⟨[], none, 0⟩).map State.all) := by
  have hrun : forMessages abi (dump ms) (ifiBody abi doaliases (dump ms)) ⟨[], none, 0⟩ =
      some ((run Item.bytes (Item.does doaliases (dump ms)) 0 ms ⟨[], none, 0⟩).map (·, 0)) :=
    forMessages_eq_run _ rfl fun m _ pre post hmem s => ifiBody_eq m hmem s
  rw [getIfiInfo, hrun]
  cases run Item.bytes (Item.does doaliases (dump ms)) 0 ms ⟨[], none, 0⟩ with
  | error x => rfl
  | ok s => rfl

/-! ### The entry for an interface -/

theorem Padded.eight_le {sa : List UInt8} (h : Padded sa) : 8 ≤ sa.length := by
  rw [h, saSize]
  split
  · rw [roundup_eq _ (byte_lt sa 0)]
    omega
  · exact Nat.le_refl 8

section Link

variable {sdl name : List UInt8} {sa : ℕ}
  (hle : sdlData 0 + sdlNlen sdl 0 + sdlAlen sdl 0 ≤ sdl.length)

include hle

theorem length_nameOf : (nameOf sdl).length = sdlNlen sdl 0 :=
  length_slice (by omega)

theorem length_hwaddr : (hwaddr sdl).length = sdlAlen sdl 0 := length_slice hle

/-- The members of a link-level address, wherever it stands. -/
theorem members_at (h : Holds mem sa sdl) :
    sdlNlen mem sa = sdlNlen sdl 0 ∧ sdlAlen mem sa = sdlAlen sdl 0 ∧
      slice mem (sdlData sa + sdlNlen sdl 0) (min ifiHaddr (sdlAlen sdl 0)) =
        (hwaddr sdl).take ifiHaddr ∧
      slice mem (sdlData sa) (sdlNlen sdl 0) = nameOf sdl := by
  have hdata : sdlData 0 = 8 := rfl
  refine ⟨h.byte_eq (by omega), h.byte_eq (by omega), ?_, h.slice_part (by omega)⟩
  rw [sdlData, Nat.add_assoc, h.slice_part (by omega), hwaddr, slice, slice, List.take_take]
  rfl

/-- The name that is printed is right exactly if it ends there. -/
theorem printName_eq_iff (h : Holds mem sa sdl) (hprint : printName mem sa = .ok name) :
    name = (nameOf sdl).take (ifiName - 1) ↔
      NameEnds (sdlNlen sdl 0) (mem.drop (sdlData sa)) := by
  obtain ⟨hnlen, -, -, hname⟩ := members_at hle h
  have hn : sdlNlen sdl 0 ≤ (mem.drop (sdlData sa)).length := by
    have hlen := length_nameOf hle
    rw [← hname, slice, List.length_take] at hlen
    omega
  simp only [printName, hnlen] at hprint
  split at hprint
  · next hzero =>
    cases hprint
    rw [← printed_eq_iff hn hzero, ← hname]
    rfl
  · cases hprint

/-- An entry is right exactly if the link-level address is fine. -/
theorem newIfi_link_iff {flags : ℕ} (h : Holds mem sa sdl) (hfamily : saFamily mem sa = afLink)
    (hnew : newIfi abi mem flags sa = .ok e) :
    (e.hlen ≤ ifiHaddr ∧ e.haddr.length = e.hlen ∧ e.haddr <+: hwaddr sdl ∧
        e.name = (nameOf sdl).take (ifiName - 1)) ↔
      sdlAlen sdl 0 ≤ ifiHaddr ∧ 0 < sdlNlen sdl 0 ∧
        NameEnds (sdlNlen sdl 0) (mem.drop (sdlData sa)) := by
  obtain ⟨hnlen, halen, hhaddr, -⟩ := members_at hle h
  have hlen := length_hwaddr hle
  simp only [newIfi, if_pos hfamily, hnlen, halen, hhaddr] at hnew
  have hfits : (sdlAlen sdl 0 ≤ ifiHaddr ∧ ((hwaddr sdl).take ifiHaddr).length = sdlAlen sdl 0 ∧
      (hwaddr sdl).take ifiHaddr <+: hwaddr sdl) ↔ sdlAlen sdl 0 ≤ ifiHaddr := by
    refine ⟨fun h => h.1, fun h => ⟨h, ?_, List.take_prefix ..⟩⟩
    rw [List.length_take, hlen, Nat.min_eq_right h]
  by_cases hpos : 0 < sdlNlen sdl 0
  · rw [if_pos hpos] at hnew
    cases hprint : printName mem sa with
    | error x => rw [hprint] at hnew; cases hnew
    | ok name =>
      rw [hprint] at hnew
      cases hnew
      rw [← and_assoc, ← and_assoc, and_assoc (a := _ ≤ _), hfits, printName_eq_iff hle h hprint]
      exact and_congr_right fun _ => (and_iff_right hpos).symm
  · rw [if_neg hpos] at hnew
    cases hnew
    -- the text for the index is not empty
    refine iff_of_false (fun hall => ?_) fun hall => hpos hall.2.1
    have hnil : nameOf sdl = [] := List.eq_nil_of_length_eq_zero (by
      rw [length_nameOf hle]
      omega)
    have hname := hall.2.2.2
    rw [hnil] at hname
    cases hname

end Link

/-- **The entry is right exactly if the link-level address is fine.** -/
theorem newIfi_consistent (hmem : mem = pre ++ (i.bytes ++ post)) (hifp : i.ifp.isSome = true)
    (h : newIfi abi mem i.flags (pre.length + saAt abi.ifMsghdr i.blk rtaxIfp) = .ok e) :
    Consistent i e ↔ Fine ⟨i, post⟩ := by
  obtain ⟨sa, hsa⟩ := Option.isSome_iff_exists.mp hifp
  have hholds : Holds mem (pre.length + saAt abi.ifMsghdr i.blk rtaxIfp) sa :=
    i.carries.mem_eq hmem hsa
  have hlen := Padded.eight_le (i.carries.padded sa (mem_of_getD hsa))
  have hfamily : saFamily mem (pre.length + saAt abi.ifMsghdr i.blk rtaxIfp) = saFamily sa 0 :=
    hholds.byte_eq (by omega)
  have hdata : mem.drop (sdlData (pre.length + saAt abi.ifMsghdr i.blk rtaxIfp)) =
      (⟨i, post⟩ : Owner abi).data := by
    rw [sdlData, Nat.add_assoc, hmem, ← List.drop_drop, List.drop_left]
    rfl
  by_cases hlink : saFamily sa 0 = afLink
  · have hi : i.link = some sa := by
      rw [Info.link, hsa, Option.filter_some, if_pos (decide_eq_true hlink)]
    have hiff := newIfi_link_iff (i.link_le sa hsa hlink) hholds (hfamily.trans hlink) h
    rw [hdata] at hiff
    constructor
    · rintro ⟨hhlen, hlength, hhaddr, hname⟩
      rw [hi] at hhaddr
      intro sdl hsdl
      obtain rfl : sa = sdl := Option.some.inj (hi.symm.trans hsdl)
      exact hiff.mp ⟨hhlen, hlength, hhaddr, hname sa hi⟩
    · intro hfine
      obtain ⟨hhlen, hlength, hhaddr, hname⟩ := hiff.mpr (hfine sa hi)
      refine ⟨hhlen, hlength, by rw [hi]; exact hhaddr, fun sdl hsdl => ?_⟩
      obtain rfl : sa = sdl := Option.some.inj (hi.symm.trans hsdl)
      exact hname
  · have hi : i.link = none := by
      rw [Info.link, hsa, Option.filter_some, if_neg (by simpa using hlink)]
    rw [newIfi, if_neg (by rwa [hfamily])] at h
    cases h
    refine iff_of_true ⟨Nat.zero_le _, rfl, List.nil_prefix, fun sdl hsdl => ?_⟩ fun sdl hsdl => ?_
    · rw [hi] at hsdl; cases hsdl
    · rw [hi] at hsdl; cases hsdl

end Message

/-! ### All messages -/

section Run

attribute [local simp] starting owners

variable {doaliases : Bool} {mem : List UInt8} {s s' : State} {done : List (Owner abi)}
  {cur : Option (Owner abi × Bool)} {e : IfiInfo} {o : Owner abi}

/-- An entry of `o`: it is right exactly if the link-level address is fine. -/
def Made (e : IfiInfo) (o : Owner abi) : Prop := Consistent o.info e ↔ Fine o

/-- The addresses do not matter. -/
theorem Made.congr {e' : IfiInfo} (h : Made e o) (hname : e'.name = e.name)
    (hhlen : e'.hlen = e.hlen) (hhaddr : e'.haddr = e.haddr) : Made e' o := by
  unfold Made at h ⊢
  rw [← h]
  constructor
  · rintro ⟨hle, hlength, hprefix, heq⟩
    exact ⟨hhlen ▸ hle, by rw [← hhaddr, ← hhlen, hlength], hhaddr ▸ hprefix, hname ▸ heq⟩
  · rintro ⟨hle, hlength, hprefix, heq⟩
    exact ⟨hhlen ▸ hle, by rw [hhaddr, hhlen, hlength], hhaddr ▸ hprefix, hname ▸ heq⟩

/-- The entries are those of `done`, and the last one is described by `cur`. -/
inductive Follows : State → List (Owner abi) → Option (Owner abi × Bool) → Prop
  | empty {s : State} {done : List (Owner abi)} : s.ifi = none →
      List.Forall₂ Made s.before done → Follows s done none
  | last {s : State} {done : List (Owner abi)} {e : IfiInfo} {o : Owner abi} : s.ifi = some e →
      List.Forall₂ Made s.before done → Made e o →
      Follows s (done ++ [o]) (some (o, e.addr.isSome))

theorem Follows.all (h : Follows s done cur) : List.Forall₂ Made s.all done := by
  cases h with
  | empty hifi hbefore =>
    rw [State.all, hifi, Option.toList_none, List.append_nil]
    exact hbefore
  | last hifi hbefore hmade =>
    rw [State.all, hifi]
    exact List.rel_append hbefore (.cons hmade .nil)

theorem Follows.flags (h : Follows s done cur) (flags : ℕ) :
    Follows { s with flags } done cur := by
  cases h with
  | empty hifi hbefore => exact .empty hifi hbefore
  | last hifi hbefore hmade => exact .last hifi hbefore hmade

theorem newIfi_addr {flags sa : ℕ} (h : newIfi abi mem flags sa = .ok e) : e.addr = none := by
  simp only [newIfi] at h
  split at h
  · split at h
    · cases hname : printName mem sa with
      | error x => rw [hname] at h; cases h
      | ok name => rw [hname] at h; cases h; rfl
    · cases h; rfl
  · cases h; rfl

/-- A message about an interface. -/
theorem Follows.info (h : Follows s done cur) {i : Info abi} {ms : List (Item abi)}
    {pre : List UInt8} (hmem : mem = pre ++ (i.bytes ++ dump ms))
    (hdoes : (Item.info i).does doaliases mem s pre.length = .ok s') :
    ∃ new cur', owners doaliases cur (.info i :: ms) = new ++ owners doaliases cur' ms ∧
      Follows s' (done ++ new) cur' := by
  rw [Item.does] at hdoes
  rw [owners]
  by_cases hstarts : i.starts = true
  · rw [if_pos hstarts] at hdoes
    rw [if_pos hstarts]
    cases hnew : newIfi abi mem i.flags (pre.length + saAt abi.ifMsghdr i.blk rtaxIfp) with
    | error x => rw [hnew] at hdoes; cases hdoes
    | ok e =>
      rw [hnew] at hdoes
      cases hdoes
      have hifp : i.ifp.isSome = true := by
        rw [Info.starts, Bool.and_eq_true] at hstarts
        exact hstarts.2
      have hmade : Made e ⟨i, dump ms⟩ := newIfi_consistent hmem hifp hnew
      refine ⟨[⟨i, dump ms⟩], _, rfl, ?_⟩
      have hlast := @Follows.last abi ⟨s.all, some e, i.flags⟩ _ _ _ rfl h.all hmade
      rwa [newIfi_addr hnew] at hlast
  · rw [if_neg hstarts] at hdoes
    rw [if_neg hstarts]
    cases hdoes
    exact ⟨[], cur, rfl, by rw [List.append_nil]; exact h.flags i.flags⟩

/-- A message about an address. -/
theorem Follows.addr (h : Follows s done cur) {a : Newaddr abi} {ms : List (Item abi)} {pos : ℕ}
    (hdoes : (Item.addr a).does doaliases mem s pos = .ok s') :
    ∃ new cur', owners doaliases cur (.addr a :: ms) = new ++ owners doaliases cur' ms ∧
      Follows s' (done ++ new) cur' := by
  have hcopy : (a.copy pos rtaxIfa).isSome = (a.sa rtaxIfa).isSome := Option.isSome_map
  rw [Item.does, newaddr] at hdoes
  cases h with
  | empty hifi hbefore => rw [hifi] at hdoes; cases hdoes
  | @last done e o hifi hbefore hmade =>
    simp only [hifi] at hdoes
    cases haddr : e.addr.isSome with
    | false =>
      -- the first address is stored in the entry
      rw [haddr] at hdoes
      cases hdoes
      refine ⟨[], _, by rw [owners]; rfl, ?_⟩
      have hnone : e.addr = none := Option.not_isSome_iff_eq_none.mp (by simp [haddr])
      have hlast := @Follows.last abi { s with ifi := some (e.store s.flags (a.copy pos)) } _ _ _
        rfl hbefore (hmade.congr rfl rfl rfl)
      have hsome : ((e.store s.flags (a.copy pos)).addr).isSome = (a.sa rtaxIfa).isSome := by
        rw [IfiInfo.store, hnone, Option.or_none, hcopy]
      rw [hsome] at hlast
      rwa [List.append_nil]
    | true =>
      rw [haddr, if_pos rfl] at hdoes
      cases doaliases with
      | false =>
        cases hdoes
        refine ⟨[], _, by rw [owners]; rfl, ?_⟩
        rw [List.append_nil, ← haddr]
        exact .last hifi hbefore hmade
      | true =>
        cases hdoes
        refine ⟨[o], _, by rw [owners]; rfl, ?_⟩
        have hlast := @Follows.last abi ⟨s.before ++ [e], some (e.alias.store s.flags (a.copy pos)),
          s.flags⟩ _ _ _ rfl (List.rel_append hbefore (.cons hmade .nil)) (hmade.congr rfl rfl rfl)
        have hsome : ((e.alias.store s.flags (a.copy pos)).addr).isSome =
            (a.sa rtaxIfa).isSome := by
          rw [IfiInfo.store, IfiInfo.alias, Option.or_none, hcopy]
        rwa [hsome] at hlast

/-- **The entries are those of their messages**, after all messages. -/
theorem run_owners : ∀ (ms : List (Item abi)) (pre : List UInt8) (s : State)
    (done : List (Owner abi)) (cur : Option (Owner abi × Bool)), mem = pre ++ dump ms →
    Follows s done cur → ∀ s', run Item.bytes (Item.does doaliases mem) pre.length ms s = .ok s' →
    List.Forall₂ Made s'.all (done ++ owners doaliases cur ms) := by
  intro ms
  induction ms with
  | nil =>
    intro pre s done cur _ hfollows s' hrun
    cases hrun
    rw [owners, List.append_nil]
    exact hfollows.all
  | cons m ms ih =>
    intro pre s done cur hmem hfollows s' hrun
    have hmem' : mem = pre ++ (m.bytes ++ dump ms) := hmem
    rw [run] at hrun
    cases hdoes : m.does doaliases mem s pre.length with
    | error x => rw [hdoes] at hrun; cases hrun
    | ok t =>
      rw [hdoes] at hrun
      have hstep : ∃ new cur', owners doaliases cur (m :: ms) = new ++ owners doaliases cur' ms ∧
          Follows t (done ++ new) cur' := by
        cases m with
        | info i => exact hfollows.info hmem' hdoes
        | addr a => exact hfollows.addr hdoes
      obtain ⟨new, cur', howners, hfollows'⟩ := hstep
      rw [howners, ← List.append_assoc]
      exact ih (pre ++ m.bytes) t _ cur' (by rw [hmem', List.append_assoc]) hfollows' s'
        (by rw [List.length_append]; exact hrun)

/-- An entry is right exactly if its link-level address is fine. -/
theorem entries_made {ms : List (Item abi)} {es : List IfiInfo}
    (h : getIfiInfo abi (dump ms) doaliases = some (.ok es)) :
    List.Forall₂ Made es (owners doaliases none ms) := by
  rw [getIfiInfo_eq] at h
  cases hrun : run Item.bytes (Item.does doaliases (dump ms)) 0 ms ⟨[], none, 0⟩ with
  | error x => rw [hrun] at h; cases h
  | ok s =>
    rw [hrun] at h
    cases h
    exact run_owners ms [] ⟨[], none, 0⟩ [] none rfl (.empty rfl .nil) s hrun

/-! ### The messages for which there are entries -/

theorem mem_owners_of_mem_starting : ∀ (ms : List (Item abi)) (cur : Option (Owner abi × Bool)),
    o ∈ starting ms → o ∈ owners doaliases cur ms := by
  intro ms
  induction ms with
  | nil => intro cur h; exact h
  | cons m ms ih =>
    intro cur h
    cases m with
    | info i =>
      rw [starting] at h
      rw [owners]
      split at h
      · next hstarts =>
        rw [if_pos hstarts]
        rcases List.mem_cons.mp h with rfl | h
        · exact List.mem_cons_self
        · exact List.mem_cons_of_mem _ (ih _ h)
      · next hstarts =>
        rw [if_neg hstarts]
        exact ih _ h
    | addr a =>
      cases cur with
      | none => exact ih none h
      | some p =>
        obtain ⟨o', b⟩ := p
        cases b with
        | false => exact ih _ h
        | true =>
          rw [owners]
          split
          · exact List.mem_cons_of_mem _ (ih _ h)
          · exact ih _ h

theorem mem_starting_of_mem_owners : ∀ (ms : List (Item abi)) (cur : Option (Owner abi × Bool)),
    o ∈ owners doaliases cur ms → o ∈ starting ms ∨ cur.map Prod.fst = some o := by
  intro ms
  induction ms with
  | nil => intro cur h; exact .inl h
  | cons m ms ih =>
    intro cur h
    cases m with
    | info i =>
      rw [owners] at h
      rw [starting]
      split at h
      · next hstarts =>
        rw [if_pos hstarts]
        rcases List.mem_cons.mp h with rfl | h
        · exact .inl List.mem_cons_self
        · rcases ih _ h with h | h
          · exact .inl (List.mem_cons_of_mem _ h)
          · cases h
            exact .inl List.mem_cons_self
      · next hstarts =>
        rw [if_neg hstarts]
        exact ih cur h
    | addr a =>
      cases cur with
      | none => exact ih none h
      | some p =>
        obtain ⟨o', b⟩ := p
        cases b with
        | false => exact ih (some (o', (a.sa rtaxIfa).isSome)) h
        | true =>
          rw [owners] at h
          split at h
          · rcases List.mem_cons.mp h with rfl | h
            · exact .inr rfl
            · exact ih (some (o', (a.sa rtaxIfa).isSome)) h
          · exact ih _ h

theorem mem_owners_iff (ms : List (Item abi)) : o ∈ owners doaliases none ms ↔ o ∈ starting ms := by
  refine ⟨fun h => ?_, mem_owners_of_mem_starting ms none⟩
  rcases mem_starting_of_mem_owners ms none h with h | h
  · exact h
  · cases h

theorem forall₂_consistent_iff {es : List IfiInfo} {os : List (Owner abi)}
    (h : List.Forall₂ Made es os) :
    List.Forall₂ (fun e o => Consistent o.info e) es os ↔ ∀ o ∈ os, Fine o := by
  induction h with
  | nil => exact iff_of_true .nil (by simp)
  | cons hmade _ ih =>
    rw [List.forall₂_cons, List.forall_mem_cons, ih]
    exact and_congr_left fun _ => hmade

/-- **All entries are right exactly if all link-level addresses are fine.** -/
theorem consistent_iff {ms : List (Item abi)} {es : List IfiInfo}
    (h : getIfiInfo abi (dump ms) doaliases = some (.ok es)) :
    List.Forall₂ (fun e o => Consistent o.info e) es (owners doaliases none ms) ↔
      ∀ o ∈ starting ms, Fine o := by
  rw [forall₂_consistent_iff (entries_made h)]
  exact forall_congr' fun o => imp_congr_left (mem_owners_iff ms)

end Run

end TcpIp.Route.Entries
