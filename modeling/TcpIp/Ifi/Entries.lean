import TcpIp.Ifi.Alias
import TcpIp.Route.Entries

/-!
# What is in the entries of the two versions

The library has two versions of `get_ifi_info`.  Both store the hardware address of an interface in
a member of `IFI_HADDR` bytes, with the number of its bytes in another member.  The version of
`lib/` bounds the number; the version of `route/` bounds what it copies, but not the number, and it
prints the name as a string that may go on into the hardware address.

## Main definitions

* `Consistent` — what is to be in an entry of the version of `lib/`.

## Main results

* `runRecords_consistent` — the entries of the version of `lib/` are right.
* `entries_iff` — **the entries of both versions are right exactly if** the link-level addresses in
  the list of the routing socket are fine.
-/

namespace TcpIp.Ifi

open Bytes Buffer
open Route (iffUp ifiHaddr)

variable {cfg : Config} {dev : Dev} {family : ℕ} {doaliases : Bool} {recs : List (Record cfg)}

/-- **What is to be in an entry**: the number of bytes is not larger than the room, and there are
as many bytes of the hardware address in a record of the interface. -/
structure Consistent (family : ℕ) (recs : List (Record cfg)) (e : IfiInfo) : Prop where
  hlen_le : e.hlen ≤ ifiHaddr
  valid : ∃ hw, hw.length = e.hlen ∧ e.haddr = hw ++ List.replicate (ifiHaddr - hw.length) 0 ∧
    (hw = [] ∨ ∃ r ∈ recs, r.IsLink ∧ keptStr family r = e.ifname ∧ hw = r.hwaddr.take ifiHaddr)

section Steps

variable {t t' : Seen} {r : Record cfg}

/-- What a record can do. -/
theorem does_eq_ok (h : r.does dev family doaliases t = .ok t') :
    t' = t.linked family r ∨ t' = { t.linked family r with last := r.iface } ∨
      ∃ flags myflags, ({ t.linked family r with last := r.iface } : Seen).enter dev family r
        flags myflags = .ok t' := by
  rw [Record.does] at h
  split at h
  · cases h
    exact .inl rfl
  · rw [Seen.ofFamily] at h
    split at h
    · cases h
      exact .inl rfl
    · obtain ⟨flags, -, h⟩ := Fallible.bind_eq_ok.mp h
      split at h
      · cases h
        exact .inr (.inl rfl)
      · exact .inr (.inr ⟨flags, _, h⟩)

/-- The hardware address that is remembered is that of a record. -/
def Remembers (family : ℕ) (recs : List (Record cfg)) (t : Seen) : Prop :=
  t.hwaddr = [] ∨ ∃ r ∈ recs, r.IsLink ∧ t.link = some (keptStr family r) ∧ t.hwaddr = r.hwaddr

theorem Remembers.linked (h : Remembers family recs t) (hr : r ∈ recs) :
    Remembers family recs (t.linked family r) := by
  rw [Seen.linked]
  split
  · next hlink => exact .inr ⟨r, hr, hlink, rfl, rfl⟩
  · exact h

theorem Remembers.forget (h : Remembers family recs t) : Remembers family recs (t.forget r) := by
  rw [Seen.forget]
  split
  · exact h
  · exact .inl rfl

/-- The record is one of the interface for which there is an entry. -/
theorem Remembers.forget_hwaddr (h : Remembers family recs t) :
    (t.forget r).hwaddr = [] ∨ ∃ r' ∈ recs, r'.IsLink ∧ keptStr family r' = r.iface ∧
      (t.forget r).hwaddr = r'.hwaddr := by
  rw [Seen.forget]
  split
  · next hlink =>
    rcases h with hnil | ⟨r', hr', hlink', hkept, hhwaddr⟩
    · exact .inl hnil
    · exact .inr ⟨r', hr', hlink', Option.some.inj (hkept.symm.trans hlink), hhwaddr⟩
  · exact .inl rfl

/-- The entry is right. -/
theorem consistent_of_newIfi {flags myflags idx : ℕ} {hw : List UInt8} {e : IfiInfo}
    (hhw : hw = [] ∨ ∃ r' ∈ recs, r'.IsLink ∧ keptStr family r' = r.iface ∧ hw = r'.hwaddr)
    (h : newIfi cfg dev family r.cutName r.ifrAddr flags myflags idx (min hw.length ifiHaddr)
      (writeAt (List.replicate ifiHaddr 0) 0 (hw.take ifiHaddr)) = .ok e) :
    Consistent family recs e := by
  obtain ⟨hname, -, hhlen, hhaddr, -⟩ := newIfi_fields h
  have hifname : e.ifname = r.iface := by rw [IfiInfo.ifname, hname, cstring_entryName]
  have hwrite := writeAt_replicate [] (hw.take ifiHaddr) ifiHaddr 0
  refine ⟨by rw [hhlen]; omega, hw.take ifiHaddr, ?_, hhaddr.trans hwrite, ?_⟩
  · rw [List.length_take, hhlen, Nat.min_comm]
  · rcases hhw with rfl | ⟨r', hr', hlink, hkept, rfl⟩
    · exact .inl List.take_nil
    · exact .inr ⟨r', hr', hlink, hkept.trans hifname.symm, rfl⟩

/-- What holds after each record. -/
structure Keeps (family : ℕ) (recs : List (Record cfg)) (t : Seen) : Prop where
  remembers : Remembers family recs t
  consistent : ∀ e ∈ t.list, Consistent family recs e

theorem Keeps.step (h : Keeps family recs t) (hr : r ∈ recs)
    (hdoes : r.does dev family doaliases t = .ok t') : Keeps family recs t' := by
  have hlinked := h.remembers.linked hr
  have hlist : ∀ e ∈ (t.linked family r).list, Consistent family recs e := by
    rw [linked_list]
    exact h.consistent
  rcases does_eq_ok hdoes with rfl | rfl | ⟨flags, myflags, henter⟩
  · exact ⟨hlinked, hlist⟩
  · exact ⟨hlinked, hlist⟩
  · obtain ⟨e, hnew, rfl⟩ := enter_eq_ok.mp henter
    have hlast : Remembers family recs { t.linked family r with last := r.iface } := hlinked
    refine ⟨hlast.forget, fun e' he' => ?_⟩
    rcases List.mem_append.mp he' with hold | hnew'
    · exact hlist e' hold
    · rw [List.mem_singleton.mp hnew']
      exact consistent_of_newIfi hlast.forget_hwaddr hnew

/-- **The entries of the version of `lib/` are right.** -/
theorem runRecords_consistent {es : List IfiInfo}
    (h : runRecords dev family doaliases recs = .ok es) : ∀ e ∈ es, Consistent family recs e := by
  rw [runRecords] at h
  cases hfold : recs.foldlM (Record.does dev family doaliases) .init with
  | error x => rw [hfold] at h; cases h
  | ok t =>
    rw [hfold] at h
    cases h
    have hkeeps : Keeps family recs t := Fallible.foldlM_keeps recs .init t
      (fun r hr b b' hb hdoes => hb.step hr hdoes) ⟨.inl rfl, fun _ he => (by cases he)⟩ hfold
    exact hkeeps.consistent

end Steps

/-- **The entries of both versions are right exactly if** each link-level address in the list of
the routing socket has room for its hardware address in an entry, and a name that ends where it
ends, or is cut off before. -/
theorem entries_iff (cfg : Config) (dev : Dev) (family : ℕ) (doaliases : Bool)
    (recs : List (Record cfg)) (slack : List UInt8) (abi : Route.Abi)
    (ms : List (Route.Entries.Item abi)) (es : List IfiInfo) (es' : List Route.IfiInfo)
    (hlib : ifconfLoop cfg dev family doaliases (dump recs ++ slack) (dump recs).length =
      some (.ok es))
    (hroute : Route.getIfiInfo abi (Route.Entries.dump ms) doaliases = some (.ok es')) :
    ((∀ e ∈ es, Consistent family recs e) ∧
      List.Forall₂ (fun e o => Route.Entries.Consistent o.info e) es'
        (Route.Entries.owners doaliases none ms)) ↔
      ∀ o ∈ Route.Entries.starting ms, Route.Entries.Fine o := by
  rw [ifconfLoop_eq] at hlib
  rw [Route.Entries.consistent_iff hroute]
  exact and_iff_right (runRecords_consistent (Option.some.inj hlib))

/-! ### Two interfaces -/

section Small

/-- A machine whose socket addresses have a length member. -/
def bsd : Config := ⟨.little, 28, 18, true, true, true, true, true, true⟩

/-- The name of `em0`. -/
def em0Name : List UInt8 := [0x65, 0x6d, 0x30]

/-- The link-level address of `em0`, with a hardware address of six bytes. -/
def em0Sdl : List UInt8 :=
  [17, 18, 1, 0, 6, 3, 6, 0, 0x65, 0x6d, 0x30, 0x02, 0x11, 0x22, 0x33, 0x44, 0x55]

/-- A record of `em0`. -/
def em0Record (addr : List UInt8) (haddr : addr.length = addrLen bsd addr 0)
    (hlink : saFamily bsd addr 0 = 18 → Route.sdlData 0 + Route.sdlNlen addr 0 +
      Route.sdlAlen addr 0 ≤ addr.length) (hinet6 : saFamily bsd addr 0 ≠ 28) : Record bsd where
  ifrName := em0Name ++ List.replicate 13 0
  ifrAddr := addr
  name_length := rfl
  name_end := by decide
  addr_length := haddr
  link_le _ := hlink
  inet6_le h := absurd h hinet6

/-- The link-level address of `em0` and an address of the family `AF_INET`. -/
def em0Records : List (Record bsd) :=
  [em0Record em0Sdl (by decide) (by decide) (by decide),
    em0Record [16, 2, 0, 0, 10, 0, 0, 1, 0, 0, 0, 0, 0, 0, 0, 0] (by decide) (by decide)
      (by decide)]

/-- The header of a message of `168 + n` bytes about an interface that is up. -/
def infoHeader (n : ℕ) : List UInt8 :=
  [UInt8.ofNat (168 + n), 0, 5, 14, 0x10, 0, 0, 0, 0x43, 0x80] ++ List.replicate 158 0

/-- A message with the link-level address `sdl`. -/
def infoBytes (sdl : List UInt8) : List UInt8 := infoHeader sdl.length ++ sdl

theorem length_infoHeader (n : ℕ) : (infoHeader n).length = 168 := by
  rw [infoHeader, List.length_append, List.length_replicate]
  rfl

def infoBlk (sdl : List UInt8) : List (Option (List UInt8)) :=
  [none, none, none, none, some sdl, none, none, none]

@[inherit_doc infoBytes]
def infoMsg (sdl : List UInt8)
    (hlen : get .little (infoBytes sdl) 0 2 = (infoBytes sdl).length) (hpad : Route.Padded sdl)
    (htype : Route.ifmType (infoBytes sdl) 0 = Route.rtmIfinfo)
    (hbits : ∀ i < Route.rtaxMax, (get .little (infoBytes sdl) 4 4).testBit i =
      ((infoBlk sdl).getD i none).isSome)
    (hle : Route.sdlData 0 + Route.sdlNlen sdl 0 + Route.sdlAlen sdl 0 ≤ sdl.length) :
    Route.Entries.Info Route.amd64 where
  bytes := infoBytes sdl
  msglen_eq := hlen
  four_le := by
    rw [infoBytes, List.length_append, length_infoHeader]
    omega
  blk := infoBlk sdl
  type_eq := htype
  carries :=
    { length_eq := rfl
      layout := ⟨infoHeader sdl.length, [], length_infoHeader sdl.length,
        by simp [infoBytes, infoBlk, Route.block]⟩
      bits := hbits
      padded := by
        intro sa hsa
        have heq : sa = sdl := by simpa [infoBlk] using hsa
        exact heq ▸ hpad }
  link_le := by
    intro sdl' h _
    have heq : sdl = sdl' := Option.some.inj h
    exact heq ▸ hle

/-- The message about `em0`. -/
def em0 : Route.Entries.Info Route.amd64 :=
  infoMsg (em0Sdl ++ List.replicate 7 0) (by decide +kernel) (by unfold Route.Padded; decide)
    (by decide +kernel) (by decide +kernel) (by decide)

/-- The link-level address of `ib0`, with a hardware address of twenty bytes. -/
def ib0Sdl : List UInt8 :=
  [31, 18, 2, 0, 32, 3, 20, 0, 0x69, 0x62, 0x30] ++ List.replicate 20 0x80 ++ [0]

/-- The message about `ib0`. -/
def ib0 : Route.Entries.Info Route.amd64 :=
  infoMsg ib0Sdl (by decide +kernel) rfl (by decide +kernel) (by decide +kernel) (by decide)

/-- The link-level address of `lo0`. -/
def lo0Sdl : List UInt8 :=
  [16, 18, 3, 0, 24, 3, 0, 0, 0x6c, 0x6f, 0x30, 0, 0, 0, 0, 0]

/-- The message about `lo0`, which has no hardware address. -/
def lo0 : Route.Entries.Info Route.amd64 :=
  infoMsg lo0Sdl (by decide +kernel) rfl (by decide +kernel) (by decide +kernel) (by decide)

end Small

/-- The entries for `em0` in one version and for `lo0` in the other are right. -/
theorem entries_iff_lo0 :
    ∃ es es', ifconfLoop bsd allUp afInet false (dump em0Records ++ []) 65 = some (.ok es) ∧
      Route.getIfiInfo Route.amd64 (Route.Entries.dump [.info lo0]) false = some (.ok es') ∧
      (∀ e ∈ es, Consistent afInet em0Records e) ∧
      List.Forall₂ (fun e o => Route.Entries.Consistent o.info e) es'
        (Route.Entries.owners false none [.info lo0]) := by
  have hroute : Route.getIfiInfo Route.amd64 (Route.Entries.dump [.info lo0]) false =
      some (.ok [⟨[0x6c, 0x6f, 0x30], 3, [], 0, 0x8043, none, none, none⟩]) := by decide +kernel
  refine ⟨_, _, rfl, hroute, (entries_iff bsd allUp afInet false em0Records [] Route.amd64
    [.info lo0] _ _ rfl hroute).mpr ?_⟩
  intro o ho
  rw [Route.Entries.starting, if_pos (by decide +kernel), Route.Entries.starting] at ho
  obtain rfl := List.mem_singleton.mp ho
  intro sdl hsdl
  obtain rfl : lo0Sdl = sdl := Option.some.inj hsdl
  exact ⟨by decide, by decide, by decide +kernel⟩

/-- The entry for `em0`, with the hardware address in its name, and the entry for `ib0`, which says
that it has twenty bytes of the hardware address. -/
def badEntries : List Route.IfiInfo :=
  [⟨em0Name ++ [0x02, 0x11, 0x22, 0x33, 0x44, 0x55], 1, [0x02, 0x11, 0x22, 0x33, 0x44, 0x55], 6,
      0x8043, none, none, none⟩,
    ⟨[0x69, 0x62, 0x30] ++ List.replicate 12 0x80, 2, List.replicate 8 0x80, 20, 0x8043, none, none,
      none⟩]

/-- **The hardware address gets into the name, and its length may be larger than the room.** -/
theorem entries_fail :
    Route.getIfiInfo Route.amd64 (Route.Entries.dump [.info em0, .info ib0]) false =
        some (.ok badEntries) ∧
      ¬ List.Forall₂ (fun e o => Route.Entries.Consistent o.info e) badEntries
        (Route.Entries.owners false none [.info em0, .info ib0]) := by
  refine ⟨by decide +kernel, fun h => ?_⟩
  rw [Route.Entries.owners, if_pos (by decide +kernel), badEntries, List.forall₂_cons] at h
  exact absurd (h.1.name_eq (em0Sdl ++ List.replicate 7 0) rfl) (by decide)

end TcpIp.Ifi
