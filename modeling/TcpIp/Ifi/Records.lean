import TcpIp.Ifi.Info
import TcpIp.Lib.Fallible

/-!
# The loop of `get_ifi_info` as a loop over records

The loop of `TcpIp.Ifi.Info` reads the records in the buffer, changes their names there and keeps
positions in the buffer.  Here it is shown to be a loop over the list of the records, which keeps
what stands at these positions: the name up to the colon, and the hardware address.

A position that is kept stays good although the names are changed, as the loop changes only the
record that it has come to, and the positions are in this record or in one before it.

## Main definitions

* `Record`, `dump` — a record, and the buffer with some records.
* `Record.does` — what the loop does for a record.
* `Shows`, `Related` — what the variables of the loop stand for.

## Main results

* `ifconfLoop_eq` — **the loop over the buffer is a loop over the records.**
* `getIfiInfo_eq` — the same for the whole function.
-/

namespace TcpIp.Ifi

open Bytes Buffer Frames
open Route (sdlIndex sdlNlen sdlAlen sdlData iffUp ifiName ifiHaddr ifnamsiz)

/-! ### Records -/

/-- A record as `SIOCGIFCONF` stores it. -/
structure Record (cfg : Config) where
  ifrName : List UInt8
  ifrAddr : List UInt8
  name_length : ifrName.length = ifnamsiz
  /-- The name is a string. -/
  name_end : 0 ∈ ifrName
  addr_length : ifrAddr.length = addrLen cfg ifrAddr 0
  /-- A link-level address holds the name and the hardware address that it says it holds. -/
  link_le : cfg.sockaddrDl = true → saFamily cfg ifrAddr 0 = cfg.afLink →
    sdlData 0 + sdlNlen ifrAddr 0 + sdlAlen ifrAddr 0 ≤ ifrAddr.length
  inet6_le : saFamily cfg ifrAddr 0 = cfg.afInet6 → sizeofSockaddrIn6 ≤ ifrAddr.length

namespace Record

variable {cfg : Config} (r : Record cfg)

def bytes : List UInt8 := r.ifrName ++ r.ifrAddr

def family : ℕ := saFamily cfg r.ifrAddr 0

/-- The name. -/
def name : List UInt8 := cstring r.ifrName 0

/-- The interface: the name up to a colon. -/
def iface : List UInt8 := r.name.takeWhile (· ≠ colon)

/-- The name after the colon has been overwritten. -/
def cutName : List UInt8 := r.iface ++ 0 :: r.ifrName.drop (r.iface.length + 1)

/-- The hardware address of a link-level address. -/
def hwaddr : List UInt8 :=
  slice r.ifrAddr (sdlData 0 + sdlNlen r.ifrAddr 0) (sdlAlen r.ifrAddr 0)

/-- The record holds a link-level address. -/
def IsLink : Prop := cfg.sockaddrDl = true ∧ r.family = cfg.afLink

instance : Decidable r.IsLink := inferInstanceAs (Decidable (_ ∧ _))

end Record

/-- The records one behind the other. -/
def dump {cfg : Config} (recs : List (Record cfg)) : List UInt8 :=
  (recs.map Record.bytes).flatten

/-! ### The loop over the records -/

/-- What the loop remembers: the last interface, the link-level address, and the entries. -/
structure Seen where
  last : List UInt8
  /-- The name that came with the link-level address. -/
  link : Option (List UInt8)
  idx : ℕ
  hwaddr : List UInt8
  list : List IfiInfo

/-- Before the loop. -/
def Seen.init : Seen := ⟨[], none, 0, [], []⟩

section Step

variable {cfg : Config} (dev : Dev) (family : ℕ) (doaliases : Bool)

def Seen.linked (t : Seen) (r : Record cfg) : Seen :=
  if r.IsLink then
    { t with
      -- the name is cut as well if such addresses are asked for
      link := some (if r.family = family then r.iface else r.name)
      idx := sdlIndex cfg.order r.ifrAddr 0
      hwaddr := r.hwaddr }
  else t

def Seen.forget (t : Seen) (r : Record cfg) : Seen :=
  if t.link = some r.iface then t else { t with idx := 0, hwaddr := [] }

def Seen.enter (t : Seen) (r : Record cfg) (flags myflags : ℕ) : Except Exit Seen :=
  let t := t.forget r
  (newIfi cfg dev family r.cutName r.ifrAddr flags myflags t.idx (min t.hwaddr.length ifiHaddr)
    (writeAt (List.replicate ifiHaddr 0) 0 (t.hwaddr.take ifiHaddr))).map
    fun ifi => { t with list := t.list ++ [ifi] }

def Seen.ofFamily (t : Seen) (r : Record cfg) : Except Exit Seen :=
  if t.last = r.iface ∧ doaliases = false then .ok t
  else do
    let flags ← ioctlOrExit (dev.flags r.iface)
    let t' := { t with last := r.iface }
    if flags.testBit iffUp = false then .ok t'
    else t'.enter dev family r flags (if t.last = r.iface then ifiAlias else 0)

/-- What the loop does for a record. -/
def Record.does (t : Seen) (r : Record cfg) : Except Exit Seen :=
  let t := t.linked family r
  if r.family ≠ family then .ok t else t.ofFamily dev family doaliases r

end Step

/-! ### Names -/

section Names

variable {cfg : Config} (r : Record cfg)

theorem bytes_length : r.bytes.length = ifnamsiz + r.ifrAddr.length := by
  rw [Record.bytes, List.length_append, r.name_length]

theorem ifrName_eq_name : ∃ rest, r.ifrName = r.name ++ 0 :: rest :=
  exists_takeWhile_append r.name_end (by simp)

theorem name_eq_iface (h : colon ∈ r.name) : ∃ rest, r.name = r.iface ++ colon :: rest :=
  exists_takeWhile_append h (by simp)

/-- Behind the interface there is a colon or the end of the name. -/
theorem ifrName_eq_iface :
    ∃ x rest, r.ifrName = r.iface ++ x :: rest ∧ (x = colon ∧ colon ∈ r.name ∨ x = 0 ∧
      colon ∉ r.name) := by
  obtain ⟨rest, hname⟩ := ifrName_eq_name r
  by_cases hcolon : colon ∈ r.name
  · obtain ⟨rest', hiface⟩ := name_eq_iface r hcolon
    refine ⟨colon, rest' ++ 0 :: rest, ?_, .inl ⟨rfl, hcolon⟩⟩
    rw [hname, ← List.cons_append, ← List.append_assoc, ← hiface]
  · have hiface : r.iface = r.name :=
      List.takeWhile_eq_self_iff.mpr fun y hy => decide_eq_true fun h => hcolon (h ▸ hy)
    exact ⟨0, rest, by rw [hiface, hname], .inr ⟨rfl, hcolon⟩⟩

theorem zero_notMem_iface : 0 ∉ r.iface :=
  fun h => zero_notMem_cstring r.ifrName 0 ((List.takeWhile_prefix _).subset h)

theorem idxOf_colon (h : colon ∈ r.name) : r.name.idxOf colon = r.iface.length := by
  obtain ⟨rest, hname⟩ := name_eq_iface r h
  have hnot : colon ∉ r.iface := fun hmem => by simpa using List.mem_takeWhile_imp hmem
  rw [hname, List.idxOf_append_of_notMem hnot, List.idxOf_cons_self, Nat.add_zero]

theorem cutName_length : r.cutName.length = ifnamsiz := by
  obtain ⟨x, rest, hname, -⟩ := ifrName_eq_iface r
  have hlen := r.name_length
  rw [hname, List.length_append, List.length_cons] at hlen
  rw [Record.cutName, List.length_append, List.length_cons, List.length_drop, r.name_length]
  omega

end Names

/-! ### One record -/

section Memory

variable {cfg : Config} {mem name pre post : List UInt8} {r : Record cfg}

theorem addrLen_ge (mem : List UInt8) (sa : ℕ) : sizeofSockaddr ≤ addrLen cfg mem sa := by
  unfold addrLen
  split
  · exact Nat.le_max_left ..
  · split
    · decide
    · exact Nat.le_refl _

theorem sizeofSockaddr_le (r : Record cfg) : sizeofSockaddr ≤ r.ifrAddr.length := by
  rw [r.addr_length]
  exact addrLen_ge r.ifrAddr 0

/-- The record stands behind `pre`, with `name` for its name. -/
structure At (mem pre name post : List UInt8) (r : Record cfg) : Prop where
  mem_eq : mem = pre ++ (name ++ (r.ifrAddr ++ post))
  name_length : name.length = ifnamsiz

/-- The address stands behind the name. -/
theorem At.holds (h : At mem pre name post r) : Holds mem (pre.length + ifnamsiz) r.ifrAddr := by
  refine ⟨pre ++ name, post, ?_, ?_⟩
  · rw [h.mem_eq, List.append_assoc]
  · rw [List.length_append, h.name_length]

theorem At.drop_eq (h : At mem pre name post r) :
    mem.drop (pre.length + ifnamsiz) = r.ifrAddr ++ post := by
  rw [h.mem_eq, ← h.name_length, ← List.drop_drop, List.drop_left, List.drop_left]

theorem At.saFamily_eq (h : At mem pre name post r) :
    saFamily cfg mem (pre.length + ifnamsiz) = r.family := by
  have hlen := sizeofSockaddr_le r
  rw [sizeofSockaddr] at hlen
  have hbyte := h.holds.byte_eq (j := 1) (by omega)
  have hget := h.holds.get_eq (o := cfg.order) (j := 0) (w := 2) (by omega)
  rw [Nat.add_zero] at hget
  rw [saFamily, Record.family, saFamily, hbyte, hget]

theorem At.addrLen_eq (h : At mem pre name post r) :
    addrLen cfg mem (pre.length + ifnamsiz) = r.ifrAddr.length := by
  have hlen := sizeofSockaddr_le r
  rw [sizeofSockaddr] at hlen
  have hbyte := h.holds.byte_eq (j := 0) (by omega)
  rw [Nat.add_zero] at hbyte
  rw [r.addr_length, addrLen, addrLen, h.saFamily_eq, hbyte, Record.family]

/-- The members of a link-level address. -/
theorem At.sdl_eq (h : At mem pre name post r) :
    sdlIndex cfg.order mem (pre.length + ifnamsiz) = sdlIndex cfg.order r.ifrAddr 0 ∧
      sdlNlen mem (pre.length + ifnamsiz) = sdlNlen r.ifrAddr 0 ∧
      sdlAlen mem (pre.length + ifnamsiz) = sdlAlen r.ifrAddr 0 := by
  have hlen := sizeofSockaddr_le r
  rw [sizeofSockaddr] at hlen
  exact ⟨h.holds.get_eq (by omega), h.holds.byte_eq (by omega), h.holds.byte_eq (by omega)⟩

/-- The name is read where it stands. -/
theorem At.slice_name (h : At mem pre name post r) : slice mem pre.length ifnamsiz = name := by
  rw [h.mem_eq, ← h.name_length, slice_mid]

theorem At.cstring_name {s rest : List UInt8} (h : At mem pre name post r)
    (hname : name = s ++ 0 :: rest) (hs : 0 ∉ s) : cstring mem pre.length = s := by
  have hdrop : mem.drop pre.length = s ++ 0 :: (rest ++ (r.ifrAddr ++ post)) := by
    rw [h.mem_eq, List.drop_left, hname, List.append_assoc, List.cons_append]
  rw [cstring_eq_of_notMem hdrop hs]

/-- The colon is overwritten, if there is one. -/
theorem At.cutColon_eq (h : At mem pre r.ifrName post r) :
    ∃ mem', cutColon mem pre.length = .ok mem' ∧ At mem' pre r.cutName post r := by
  obtain ⟨x, rest, hname, hx⟩ := ifrName_eq_iface r
  obtain ⟨rest', hname'⟩ := ifrName_eq_name r
  have hstr : cstring mem pre.length = r.name :=
    h.cstring_name hname' (zero_notMem_cstring r.ifrName 0)
  have hcut : r.cutName = r.iface ++ 0 :: rest := by
    rw [Record.cutName, hname, ← List.drop_drop, List.drop_left]
    rfl
  refine ⟨pre ++ (r.cutName ++ (r.ifrAddr ++ post)), ?_, rfl, cutName_length r⟩
  rw [cutColon, hstr]
  rcases hx with ⟨rfl, hcolon⟩ | ⟨rfl, hcolon⟩
  · have hidx : r.name.idxOf colon = r.iface.length := idxOf_colon r hcolon
    rw [if_pos hcolon, hidx, h.mem_eq, hcut, hname]
    have hwrite := @writeAt_append _ [colon] (pre ++ r.iface) [0] (rest ++ (r.ifrAddr ++ post)) rfl
    rw [List.length_append] at hwrite
    simpa using hwrite
  · have hzero : 0 ∈ mem.drop pre.length := by
      rw [h.mem_eq, List.drop_left, hname]
      simp
    rw [if_neg hcolon, if_pos hzero, h.mem_eq, hcut, hname]

/-- The addresses of the entry are made from the record. -/
theorem At.addresses_eq {dev : Dev} {family flags : ℕ} {str : List UInt8}
    (h : At mem pre name post r) (hfamily : r.family = family) :
    addresses cfg dev family str flags (mem.drop (pre.length + ifnamsiz)) =
      addresses cfg dev family str flags r.ifrAddr := by
  have hin : (r.ifrAddr ++ post).take sizeofSockaddr = r.ifrAddr.take sizeofSockaddr :=
    List.take_append_of_le_length (sizeofSockaddr_le r)
  rw [h.drop_eq]
  by_cases hinet : family = afInet
  · simp only [addresses, hinet, if_true]
    rw [sizeofSockaddr, ← sizeofSockaddrIn] at hin
    rw [hin]
  · by_cases hinet6 : family = cfg.afInet6
    · have hin6 : (r.ifrAddr ++ post).take sizeofSockaddrIn6 =
          r.ifrAddr.take sizeofSockaddrIn6 :=
        List.take_append_of_le_length (r.inet6_le (hfamily.trans hinet6))
      simp only [addresses, if_neg hinet, if_pos hinet6, hin6]
    · simp only [addresses, if_neg hinet, if_neg hinet6]

end Memory

/-! ### Entries -/

section Entries

variable {cfg : Config} {dev : Dev} {family flags myflags idx hlen : ℕ}
  {name ifrName sa haddr : List UInt8} {ifi : IfiInfo}

/-- `ifi_addr`, of a record with the address `sa`. -/
def copied (cfg : Config) (family : ℕ) (sa : List UInt8) : Option (List UInt8) :=
  if family = afInet then some (sa.take sizeofSockaddrIn)
  else if family = cfg.afInet6 then some (sa.take sizeofSockaddrIn6)
  else none

/-- The name of an entry. -/
def IfiInfo.ifname (ifi : IfiInfo) : List UInt8 := cstring ifi.name 0

theorem addresses_fst {x : Option (List UInt8) × Option (List UInt8) × Option (List UInt8)}
    (h : addresses cfg dev family name flags sa = .ok x) : x.1 = copied cfg family sa := by
  unfold addresses at h
  unfold copied
  split at h
  · next hinet =>
    obtain ⟨brdaddr, -, h⟩ := Fallible.bind_eq_ok.mp h
    obtain ⟨dstaddr, -, h⟩ := Fallible.bind_eq_ok.mp h
    cases h
    rw [if_pos hinet]
  · next hinet =>
    rw [if_neg hinet]
    split at h
    · next hinet6 =>
      obtain ⟨dstaddr, -, h⟩ := Fallible.bind_eq_ok.mp h
      cases h
      rw [if_pos hinet6]
    · next hinet6 =>
      cases h
      rw [if_neg hinet6]

/-- What is in an entry. -/
theorem newIfi_fields
    (h : newIfi cfg dev family ifrName sa flags myflags idx hlen haddr = .ok ifi) :
    ifi.name = ifrName.take (ifiName - 1) ++ [0] ∧ ifi.myflags = myflags ∧ ifi.hlen = hlen ∧
      ifi.haddr = haddr ∧ ifi.addr = copied cfg family sa := by
  unfold newIfi at h
  obtain ⟨mtu, -, h⟩ := Fallible.bind_eq_ok.mp h
  obtain ⟨x, hx, h⟩ := Fallible.bind_eq_ok.mp h
  cases h
  exact ⟨rfl, rfl, rfl, rfl, addresses_fst hx⟩

theorem iface_length_lt (r : Record cfg) : r.iface.length < ifnamsiz := by
  have hlen := cutName_length r
  rw [Record.cutName, List.length_append, List.length_cons] at hlen
  omega

/-- The last byte of the name of an entry is set to zero, which does not change the string. -/
theorem cstring_entryName (r : Record cfg) :
    cstring (r.cutName.take (ifiName - 1) ++ [0]) 0 = r.iface := by
  have hlt := iface_length_lt r
  have hzero := zero_notMem_iface r
  rcases Nat.lt_or_ge r.iface.length (ifiName - 1) with hshort | hlong
  · obtain ⟨k, hk⟩ := Nat.exists_eq_add_of_lt hshort
    have hname : r.cutName.take (ifiName - 1) ++ [0] =
        r.iface ++ 0 :: ((r.ifrName.drop (r.iface.length + 1)).take k ++ [0]) := by
      rw [Record.cutName, hk, List.take_append, List.take_of_length_le (by omega)]
      rw [Nat.add_assoc, Nat.add_sub_cancel_left, List.take_succ_cons]
      simp
    exact cstring_eq_of_notMem (List.drop_zero.trans hname) hzero
  · have hname : r.cutName.take (ifiName - 1) ++ [0] = r.iface ++ 0 :: [] := by
      rw [Record.cutName, List.take_append_of_le_length (by omega), List.take_of_length_le]
      rw [ifnamsiz] at hlt
      rw [ifiName]
      omega
    exact cstring_eq_of_notMem (List.drop_zero.trans hname) hzero

variable {t t' : Seen} {r : Record cfg}

@[simp] theorem linked_last (t : Seen) (r : Record cfg) : (t.linked family r).last = t.last := by
  rw [Seen.linked]
  split <;> rfl

@[simp] theorem linked_list (t : Seen) (r : Record cfg) : (t.linked family r).list = t.list := by
  rw [Seen.linked]
  split <;> rfl

@[simp] theorem forget_last (t : Seen) (r : Record cfg) : (t.forget r).last = t.last := by
  rw [Seen.forget]
  split <;> rfl

@[simp] theorem forget_list (t : Seen) (r : Record cfg) : (t.forget r).list = t.list := by
  rw [Seen.forget]
  split <;> rfl

theorem enter_eq_ok : t.enter dev family r flags myflags = .ok t' ↔
    ∃ ifi, newIfi cfg dev family r.cutName r.ifrAddr flags myflags (t.forget r).idx
        (min (t.forget r).hwaddr.length ifiHaddr)
        (writeAt (List.replicate ifiHaddr 0) 0 ((t.forget r).hwaddr.take ifiHaddr)) = .ok ifi ∧
      t' = { t.forget r with list := t.list ++ [ifi] } := by
  rw [Seen.enter, forget_list]
  cases newIfi cfg dev family r.cutName r.ifrAddr flags myflags (t.forget r).idx
      (min (t.forget r).hwaddr.length ifiHaddr)
      (writeAt (List.replicate ifiHaddr 0) 0 ((t.forget r).hwaddr.take ifiHaddr)) with
  | error e => simp [Except.map]
  | ok ifi => simp [Except.map, eq_comm]

end Entries

/-! ### The two loops -/

section Refinement

variable {cfg : Config} {dev : Dev} {family : ℕ} {doaliases : Bool} {pre post : List UInt8}
  {s : Vars} {t : Seen} {r : Record cfg}

/-- The name of a record after its turn. -/
def kept (family : ℕ) (r : Record cfg) : List UInt8 :=
  if r.family = family then r.cutName else r.ifrName

/-- The string in it. -/
def keptStr (family : ℕ) (r : Record cfg) : List UInt8 :=
  if r.family = family then r.iface else r.name

theorem kept_eq (family : ℕ) (r : Record cfg) :
    ∃ rest, kept family r = keptStr family r ++ 0 :: rest ∧ 0 ∉ keptStr family r := by
  by_cases hfamily : r.family = family
  · rw [kept, keptStr, if_pos hfamily, if_pos hfamily]
    exact ⟨_, rfl, zero_notMem_iface r⟩
  · rw [kept, keptStr, if_neg hfamily, if_neg hfamily]
    obtain ⟨rest, hname⟩ := ifrName_eq_name r
    exact ⟨rest, hname, zero_notMem_cstring r.ifrName 0⟩

theorem kept_length (family : ℕ) (r : Record cfg) : (kept family r).length = ifnamsiz := by
  rw [kept]
  split
  · exact cutName_length r
  · exact r.name_length

/-- What the variables stand for, where `pre` are the records that have had their turn. -/
structure Shows (pre : List UInt8) (s : Vars) (t : Seen) : Prop where
  last_length : s.lastname.length = ifnamsiz
  last_eq : cstring s.lastname 0 = t.last
  link_none : s.sdlname = none → t.link = none
  link_some : ∀ p, s.sdlname = some p → ∃ str, t.link = some str ∧ 0 ∉ str ∧
    Holds pre p (str ++ [0])
  idx_eq : s.idx = t.idx
  hlen_eq : s.hlen = t.hwaddr.length
  haddr_eq : Holds pre s.haddr t.hwaddr
  list_eq : s.list = t.list

theorem Shows.append (h : Shows pre s t) (rest : List UInt8) : Shows (pre ++ rest) s t where
  __ := h
  link_some p hp := by
    obtain ⟨str, hlink, hstr, hholds⟩ := h.link_some p hp
    exact ⟨str, hlink, hstr, hholds.append rest⟩
  haddr_eq := h.haddr_eq.append rest

/-- A link-level address is found where its record stands, also after the name has been cut. -/
theorem Shows.linked (family : ℕ) (h : Shows pre s t) (hat : At s.mem pre r.ifrName post r) :
    Shows (pre ++ (kept family r ++ r.ifrAddr)) (s.linked cfg pre.length)
      (t.linked family r) := by
  have hrest := h.append (kept family r ++ r.ifrAddr)
  rw [Vars.linked, Seen.linked, hat.saFamily_eq]
  by_cases hlink : r.IsLink
  · obtain ⟨rest, hkept, hzero⟩ := kept_eq family r
    have hle : sdlData 0 + sdlNlen r.ifrAddr 0 + sdlAlen r.ifrAddr 0 ≤ r.ifrAddr.length :=
      r.link_le hlink.1 hlink.2
    obtain ⟨hindex, hnlen, halen⟩ := hat.sdl_eq
    have haddr : Holds (pre ++ (kept family r ++ r.ifrAddr)) (pre.length + ifnamsiz) r.ifrAddr :=
      ⟨pre ++ kept family r, [], by simp, by rw [List.length_append, kept_length]⟩
    have hcond : cfg.sockaddrDl = true ∧ r.family = cfg.afLink := hlink
    rw [if_pos hcond, if_pos hlink]
    exact {
      hrest with
      link_none := fun hnone => (by cases hnone)
      link_some := fun p hp => by
        cases hp
        exact ⟨keptStr family r, rfl, hzero, pre, rest ++ r.ifrAddr, by simp [hkept], rfl⟩
      idx_eq := hindex
      hlen_eq := halen.trans (length_slice hle).symm
      haddr_eq := by
        have hpart := haddr.part (w := sdlAlen r.ifrAddr 0)
          (show sdlData 0 + sdlNlen r.ifrAddr 0 ≤ r.ifrAddr.length by omega)
        simp only [sdlData, hnlen, Nat.zero_add, Record.hwaddr, Nat.add_assoc] at hpart ⊢
        exact hpart }
  · have hnot : ¬ (cfg.sockaddrDl = true ∧ r.family = cfg.afLink) := hlink
    rw [if_neg hnot, if_neg hlink]
    exact hrest

theorem cstring_cutName (r : Record cfg) : cstring r.cutName 0 = r.iface :=
  cstring_eq_of_notMem List.drop_zero (zero_notMem_iface r)

theorem Shows.forget (hat : At s.mem pre r.cutName post r)
    (h : Shows (pre ++ (r.cutName ++ r.ifrAddr)) s t) :
    Shows (pre ++ (r.cutName ++ r.ifrAddr)) (s.forget pre.length) (t.forget r) ∧
      (s.forget pre.length).mem = s.mem := by
  have hmem : s.mem = pre ++ (r.cutName ++ r.ifrAddr) ++ post := by
    rw [hat.mem_eq]
    simp only [List.append_assoc]
  have hname : cstring s.mem pre.length = r.iface := hat.cstring_name rfl (zero_notMem_iface r)
  -- `strcmp(sdlname, ifr->ifr_name)` reads the older name where its record still stands
  have hsame : (s.sdlname.any fun p => cstring s.mem p = cstring s.mem pre.length) =
      decide (t.link = some r.iface) := by
    cases hsdl : s.sdlname with
    | none =>
      rw [h.link_none hsdl]
      rfl
    | some p =>
      obtain ⟨str, hlink, hzero, hholds⟩ := h.link_some p hsdl
      have hstr : cstring s.mem p = str := by
        obtain ⟨front, rest, hfront, rfl⟩ := hmem ▸ hholds.append post
        have hdrop : s.mem.drop front.length = str ++ 0 :: rest := by
          rw [hfront, List.drop_left, List.append_assoc, List.singleton_append]
        exact cstring_eq_of_notMem hdrop hzero
      rw [hlink, Option.any_some, hstr, hname]
      simp
  -- `haddr` keeps pointing there, with `hlen` zero
  have hzero : ∃ front rest, pre ++ (r.cutName ++ r.ifrAddr) = front ++ ([] ++ rest) ∧
      front.length = s.haddr := by
    obtain ⟨front, rest, hfront, hlen⟩ := h.haddr_eq
    exact ⟨front, t.hwaddr ++ rest, hfront, hlen⟩
  rw [Vars.forget, Seen.forget, hsame]
  by_cases hlink : t.link = some r.iface
  · rw [if_pos (decide_eq_true hlink), if_pos hlink]
    exact ⟨h, rfl⟩
  · rw [if_neg (by simpa using hlink), if_neg hlink]
    exact ⟨{ h with idx_eq := rfl, hlen_eq := rfl, haddr_eq := hzero }, rfl⟩

/-- The bytes that `memcpy` stores in the entry. -/
theorem Shows.haddr_stored (h : Shows pre s t) (hmem : s.mem = pre ++ post) :
    (if s.hlen ≠ 0 then
      writeAt (List.replicate ifiHaddr 0) 0 (slice s.mem s.haddr (min s.hlen ifiHaddr))
    else List.replicate ifiHaddr 0) =
      writeAt (List.replicate ifiHaddr 0) 0 (t.hwaddr.take ifiHaddr) := by
  by_cases hlen : s.hlen = 0
  · have hnil : t.hwaddr = [] := List.eq_nil_of_length_eq_zero (h.hlen_eq.symm.trans hlen)
    rw [if_neg (not_not.mpr hlen), hnil]
    rfl
  · have hslice := (h.haddr_eq.append post).slice_eq
    rw [← hmem, ← h.hlen_eq] at hslice
    rw [if_pos hlen, ← hslice, slice, slice, List.take_take, Nat.min_comm]

/-- The entry is made from the record. -/
theorem Shows.enter {flags myflags : ℕ} (hat : At s.mem pre r.cutName post r)
    (hfamily : r.family = family) (h : Shows (pre ++ (r.cutName ++ r.ifrAddr)) s t) :
    Ends (fun e => t.enter dev family r flags myflags = .error e)
      (fun s' => ∃ t', t.enter dev family r flags myflags = .ok t' ∧ s'.mem = s.mem ∧
        Shows (pre ++ (r.cutName ++ r.ifrAddr)) s' t')
      (s.enter cfg dev family pre.length flags myflags) := by
  obtain ⟨hshows, hmem⟩ := h.forget hat
  rw [Vars.enter, Seen.enter]
  generalize s.forget pre.length = s₁ at hshows hmem ⊢
  generalize t.forget r = t₁ at hshows ⊢
  have hbehind : s₁.mem = pre ++ (r.cutName ++ r.ifrAddr) ++ post := by
    rw [hmem, hat.mem_eq]
    simp only [List.append_assoc]
  have hhaddr := hshows.haddr_stored hbehind
  have hnew : newIfi cfg dev family (slice s₁.mem pre.length ifnamsiz)
      (s₁.mem.drop (pre.length + ifnamsiz)) flags myflags s₁.idx (min s₁.hlen ifiHaddr)
      (writeAt (List.replicate ifiHaddr 0) 0 (t₁.hwaddr.take ifiHaddr)) =
      newIfi cfg dev family r.cutName r.ifrAddr flags myflags t₁.idx
      (min t₁.hwaddr.length ifiHaddr)
      (writeAt (List.replicate ifiHaddr 0) 0 (t₁.hwaddr.take ifiHaddr)) := by
    rw [hmem, hat.slice_name, hshows.idx_eq, hshows.hlen_eq]
    -- the address is read from the rest of the buffer, but not beyond its own length
    simp only [newIfi, hat.addresses_eq hfamily]
  simp only [hhaddr, hnew]
  cases newIfi cfg dev family r.cutName r.ifrAddr flags myflags t₁.idx
      (min t₁.hwaddr.length ifiHaddr)
      (writeAt (List.replicate ifiHaddr 0) 0 (t₁.hwaddr.take ifiHaddr)) with
  | error e => rfl
  | ok ifi =>
    refine ⟨_, rfl, hmem, { hshows with list_eq := ?_ }⟩
    rw [hshows.list_eq]

/-- A record of the family that is asked for: its name is cut, and the last name is the one that is
remembered. -/
theorem Shows.ofFamily (hat : At s.mem pre r.ifrName post r) (hfamily : r.family = family)
    (h : Shows (pre ++ (r.cutName ++ r.ifrAddr)) s t) :
    Ends (fun e => t.ofFamily dev family doaliases r = .error e)
      (fun s' => ∃ t', t.ofFamily dev family doaliases r = .ok t' ∧
        s'.mem = pre ++ (r.cutName ++ (r.ifrAddr ++ post)) ∧
        Shows (pre ++ (r.cutName ++ r.ifrAddr)) s' t')
      (s.ofFamily cfg dev family doaliases pre.length) := by
  obtain ⟨mem', hcut, hat'⟩ := hat.cutColon_eq
  have hlast : cstring (s.lastname.take ifnamsiz) 0 = t.last := by
    rw [List.take_of_length_le (Nat.le_of_eq h.last_length), h.last_eq]
  have hname := hat'.slice_name
  have hstr := cstring_cutName r
  rw [Vars.ofFamily, Seen.ofFamily, hcut]
  simp only [Fallible.ok_bind, hname, hstr, hlast]
  by_cases hsame : t.last = r.iface ∧ doaliases = false
  · rw [if_pos hsame, if_pos hsame]
    exact ⟨t, rfl, hat'.mem_eq, { h with }⟩
  · rw [if_neg hsame, if_neg hsame]
    cases hflags : ioctlOrExit (dev.flags r.iface) with
    | error e => rfl
    | ok flags =>
      simp only [Fallible.ok_bind]
      -- `lastname` is set before the flags are looked at, also for an interface that is down
      have hshows : Shows (pre ++ (r.cutName ++ r.ifrAddr))
          { s with mem := mem', lastname := r.cutName } { t with last := r.iface } :=
        { h with last_length := cutName_length r, last_eq := hstr }
      by_cases hup : flags.testBit iffUp = false
      · rw [if_pos hup, if_pos hup]
        exact ⟨_, rfl, hat'.mem_eq, hshows⟩
      · rw [if_neg hup, if_neg hup]
        refine (hshows.enter hat' hfamily).imp (fun _ he => he) ?_
        rintro s' ⟨t', ht', hmem, hs'⟩
        exact ⟨t', ht', hmem.trans hat'.mem_eq, hs'⟩

/-- The loop over the buffer and the loop over the records: the records that are left are in the
buffer, behind those that have had their turn. -/
def Related (cfg : Config) (post : List UInt8) (pos : ℕ) (recs : List (Record cfg)) (s : Vars)
    (t : Seen) : Prop :=
  ∃ pre, s.mem = pre ++ (dump recs ++ post) ∧ pre.length = pos ∧ Shows pre s t

theorem Related.step (dev : Dev) (family : ℕ) (doaliases : Bool) {pos : ℕ}
    {recs : List (Record cfg)}
    (h : Related cfg post pos (r :: recs) s t) :
    r.bytes ≠ [] ∧ stride cfg s pos = r.bytes.length ∧
    Ends (fun e => r.does dev family doaliases t = .error e)
      (fun s' => ∃ t', r.does dev family doaliases t = .ok t' ∧
        Related cfg post (pos + r.bytes.length) recs s' t')
      (ifconfBody cfg dev family doaliases s pos) := by
  obtain ⟨pre, hmem, rfl, hshows⟩ := h
  have hat : At s.mem pre r.ifrName (dump recs ++ post) r := by
    refine ⟨?_, r.name_length⟩
    rw [hmem]
    simp only [dump, List.map_cons, List.flatten_cons, Record.bytes, List.append_assoc]
  have hlen := bytes_length r
  have hne : r.bytes ≠ [] := by
    intro hnil
    rw [hnil, ifnamsiz, List.length_nil] at hlen
    omega
  refine ⟨hne, ?_, ?_⟩
  · rw [stride, hat.addrLen_eq, hlen]
  · have hlinked := hshows.linked family hat
    have hsmem : (s.linked cfg pre.length).mem = s.mem := by
      rw [Vars.linked]
      split <;> rfl
    rw [ifconfBody, Record.does]
    generalize s.linked cfg pre.length = s₁ at hlinked hsmem ⊢
    generalize t.linked family r = t₁ at hlinked ⊢
    rw [hsmem, hat.saFamily_eq]
    by_cases hfamily : r.family = family
    · rw [if_neg (not_not.mpr hfamily), if_neg (not_not.mpr hfamily)]
      rw [kept, if_pos hfamily] at hlinked
      rw [← hsmem] at hat
      refine (hlinked.ofFamily hat hfamily).imp (fun _ he => he) ?_
      rintro s' ⟨t', ht', hmem', hs'⟩
      refine ⟨t', ht', pre ++ (r.cutName ++ r.ifrAddr), ?_, ?_, hs'⟩
      · rw [hmem']
        simp only [List.append_assoc]
      · rw [List.length_append, List.length_append, cutName_length, hlen]
    · rw [if_pos hfamily, if_pos hfamily]
      rw [kept, if_neg hfamily] at hlinked
      refine ⟨t₁, rfl, pre ++ r.bytes, ?_, ?_, hlinked⟩
      · rw [hsmem, hat.mem_eq, Record.bytes]
        simp only [List.append_assoc]
      · rw [List.length_append]

theorem Related.init (recs : List (Record cfg)) (post : List UInt8) :
    Related cfg post 0 recs (.init (dump recs ++ post)) .init :=
  ⟨[], rfl, rfl, {
    last_length := List.length_replicate
    last_eq := rfl
    link_none := fun _ => rfl
    link_some := fun _ h => (by cases h)
    idx_eq := rfl
    hlen_eq := rfl
    haddr_eq := ⟨[], [], rfl, rfl⟩
    list_eq := rfl }⟩

theorem length_le_dump (recs : List (Record cfg)) : recs.length ≤ (dump recs).length := by
  induction recs with
  | nil => exact Nat.le_refl 0
  | cons r recs ih =>
    have hlen := bytes_length r
    rw [ifnamsiz] at hlen
    rw [dump, List.map_cons, List.flatten_cons, List.length_append, List.length_cons]
    rw [dump] at ih
    omega

end Refinement

/-- What the loop does for the records, one after the other. -/
def runRecords {cfg : Config} (dev : Dev) (family : ℕ) (doaliases : Bool)
    (recs : List (Record cfg)) : Except Exit (List IfiInfo) :=
  (recs.foldlM (Record.does dev family doaliases) .init).map Seen.list

/-- **The loop over the buffer is a loop over the records**, whatever is behind them. -/
theorem ifconfLoop_eq {cfg : Config} (dev : Dev) (family : ℕ) (doaliases : Bool)
    (recs : List (Record cfg)) (slack : List UInt8) :
    ifconfLoop cfg dev family doaliases (dump recs ++ slack) (dump recs).length =
      some (runRecords dev family doaliases recs) := by
  have hrelated : ∃ x, walk (stride cfg) (ifconfBody cfg dev family doaliases) (dump recs).length
        (dump recs).length 0 (.init (dump recs ++ slack)) = some x ∧
      Ends (fun e => recs.foldlM (Record.does dev family doaliases) .init = .error e)
        (fun s => ∃ t, recs.foldlM (Record.does dev family doaliases) .init = .ok t ∧
          Related cfg slack (dump recs).length [] s t) x :=
    walk_related (fun _ _ _ _ _ h => Related.step dev family doaliases h) recs _ 0 _ _
      (Related.init recs slack) (length_le_dump recs) (Nat.zero_add _)
  obtain ⟨x, hwalk, hends⟩ := hrelated
  rw [ifconfLoop, runRecords, hwalk]
  cases x with
  | error e =>
    rw [hends]
    rfl
  | ok s =>
    obtain ⟨t, hfold, pre, -, -, hshows⟩ := hends
    rw [hfold, Option.map_some, Except.map, Except.map, hshows.list_eq]

/-- **The whole function**, with a kernel that stores these records. -/
theorem getIfiInfo_eq {cfg : Config} (dev : Dev) (family : ℕ) (doaliases : Bool)
    (recs : List (Record cfg)) (slack : List UInt8) (k : Ifconf) (size : ℕ)
    (hk : k.records = recs.map Record.bytes) (hsize : ∀ r ∈ recs, r.bytes.length ≤ 10 * size) :
    ∃ fuel, getIfiInfo cfg dev family doaliases k.ioctl size fuel slack =
      some (runRecords dev family doaliases recs) := by
  have hrec : ∀ b ∈ k.records, b.length ≤ 10 * size := by
    rw [hk]
    exact List.forall_mem_map.mpr hsize
  obtain ⟨fuel, len, hsizing, -⟩ := sizing_done k size hrec
  refine ⟨fuel, ?_⟩
  rw [getIfiInfo, hsizing, Option.bind_some, hk]
  exact ifconfLoop_eq dev family doaliases recs slack

end TcpIp.Ifi
