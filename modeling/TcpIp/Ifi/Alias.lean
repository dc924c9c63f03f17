import TcpIp.Ifi.Records
import TcpIp.Lib.Adjacent

/-!
# Aliases

An interface may have several addresses.  `get_ifi_info` of `lib/` is to return one entry for each
interface, or, if aliases are asked for, one entry for each address, with a flag on those that are
not the first one of their interface.

The function tells an alias from a first address by the name of the last record of the family: it
takes a record for an alias if that is the same name.  So an interface whose records do not stand
next to each other gets several entries, and an alias behind a record of another interface gets no
flag.

## Main definitions

* `OnePerInterface`, `OnePerRecord` — what the function is to return.

## Main results

* `ifconfLoop_entries` — the records for which there are entries.
* `aliases_iff` — **the entries are right exactly if the records of an interface stand next to each
  other.**
-/

namespace TcpIp.Ifi

open Adjacent Bytes
open Route (iffUp iffBroadcast iffPointopoint ifnamsiz ifiName)

variable {cfg : Config} {dev : Dev} {family : ℕ} {doaliases : Bool}

/-! ### What is to be returned -/

/-- The records of the family that is asked for. -/
def ofFamily (family : ℕ) (recs : List (Record cfg)) : List (Record cfg) :=
  recs.filter (·.family = family)

/-- Their interfaces. -/
def ifaces (family : ℕ) (recs : List (Record cfg)) : List (List UInt8) :=
  (ofFamily family recs).map Record.iface

/-- `IFI_ALIAS` is set. -/
def IfiInfo.isAlias (ifi : IfiInfo) : Bool := ifi.myflags &&& ifiAlias != 0

/-- There is one entry for each interface that has an address of the family. -/
def OnePerInterface (family : ℕ) (recs : List (Record cfg)) (es : List IfiInfo) : Prop :=
  (es.map IfiInfo.ifname).Nodup ∧
    ∀ name, name ∈ es.map IfiInfo.ifname ↔ name ∈ ifaces family recs

/-- There is one entry for each record of the family, in this order.  Those that are not the first
one of their interface have the flag. -/
def OnePerRecord (family : ℕ) (recs : List (Record cfg)) (es : List IfiInfo) : Prop :=
  es.map (fun ifi => (ifi.ifname, ifi.addr)) =
      (ofFamily family recs).map (fun r => (r.iface, copied cfg family r.ifrAddr)) ∧
    es.map IfiInfo.isAlias = again [] (ifaces family recs)

/-- The interface is up, and the kernel answers what it is asked. -/
structure Dev.Up (dev : Dev) (cfg : Config) (family : ℕ) (name : List UInt8) : Prop where
  flags : ∃ flags, dev.flags name = .ok flags ∧ flags.testBit iffUp = true ∧
    (family = afInet → cfg.brdaddr = true → flags.testBit iffBroadcast = true →
      ∃ sa, dev.brdaddr name = .ok sa) ∧
    (family = afInet ∨ family = cfg.afInet6 → cfg.dstaddr = true →
      flags.testBit iffPointopoint = true → ∃ sa, dev.dstaddr name = .ok sa)
  mtu : cfg.ifrMtu = true → ∃ mtu, dev.mtu name = .ok mtu

/-! ### One record -/

section Step

variable {t : Seen} {r : Record cfg}

theorem asked_ok (wanted : Bool) {sa : Except Errno (List UInt8)} (size : ℕ)
    (h : wanted = true → ∃ x, sa = .ok x) : ∃ x, asked wanted sa size = .ok x := by
  cases wanted with
  | false => exact ⟨none, rfl⟩
  | true =>
    obtain ⟨x, rfl⟩ := h rfl
    exact ⟨some (x.take size), rfl⟩

/-- The kernel answers, so that there is an entry. -/
theorem newIfi_ok {ifrName sa haddr : List UInt8} {flags myflags idx hlen : ℕ}
    (hmtu : cfg.ifrMtu = true → ∃ mtu, dev.mtu (cstring ifrName 0) = .ok mtu)
    (hbrdaddr : family = afInet → cfg.brdaddr = true → flags.testBit iffBroadcast = true →
      ∃ sa, dev.brdaddr (cstring ifrName 0) = .ok sa)
    (hdstaddr : family = afInet ∨ family = cfg.afInet6 → cfg.dstaddr = true →
      flags.testBit iffPointopoint = true → ∃ sa, dev.dstaddr (cstring ifrName 0) = .ok sa) :
    ∃ ifi, newIfi cfg dev family ifrName sa flags myflags idx hlen haddr = .ok ifi := by
  have hmtu : ∃ mtu, ifiMtu cfg dev (cstring ifrName 0) = .ok mtu := by
    unfold ifiMtu
    split
    · next hcfg =>
      obtain ⟨mtu, hmtu⟩ := hmtu hcfg
      exact ⟨mtu, by rw [hmtu]; rfl⟩
    · exact ⟨0, rfl⟩
  have haddrs : ∃ x, addresses cfg dev family (cstring ifrName 0) flags sa = .ok x := by
    unfold addresses
    by_cases hinet : family = afInet
    · obtain ⟨brdaddr, hbrd⟩ := asked_ok (cfg.brdaddr && flags.testBit iffBroadcast)
        sizeofSockaddrIn fun h => hbrdaddr hinet (by simp_all) (by simp_all)
      obtain ⟨dstaddr, hdst⟩ := asked_ok (cfg.dstaddr && flags.testBit iffPointopoint)
        sizeofSockaddrIn fun h => hdstaddr (.inl hinet) (by simp_all) (by simp_all)
      exact ⟨_, by simp only [if_pos hinet, hbrd, hdst, Fallible.ok_bind]; rfl⟩
    · by_cases hinet6 : family = cfg.afInet6
      · obtain ⟨dstaddr, hdst⟩ := asked_ok (cfg.dstaddr && flags.testBit iffPointopoint)
          sizeofSockaddrIn6 fun h => hdstaddr (.inr hinet6) (by simp_all) (by simp_all)
        exact ⟨_, by simp only [if_neg hinet, if_pos hinet6, hdst, Fallible.ok_bind]; rfl⟩
      · exact ⟨_, by simp only [if_neg hinet, if_neg hinet6]; rfl⟩
  obtain ⟨mtu, hmtu⟩ := hmtu
  obtain ⟨x, hx⟩ := haddrs
  exact ⟨_, by simp only [newIfi, hmtu, hx, Fallible.ok_bind]; rfl⟩

/-- An entry for a record, which is taken for an alias or not. -/
structure IsEntry (family : ℕ) (ifi : IfiInfo) (p : Record cfg × Bool) : Prop where
  ifname_eq : ifi.ifname = p.1.iface
  addr_eq : ifi.addr = copied cfg family p.1.ifrAddr
  isAlias_eq : ifi.isAlias = p.2

/-- A record of another family has no entry. -/
theorem does_of_ne (h : r.family ≠ family) :
    r.does dev family doaliases t = .ok (t.linked family r) := by
  rw [Record.does, if_pos h]

/-- A record with the name of the one before has no entry if aliases are not asked for. -/
theorem does_of_last (h : r.family = family) (hlast : t.last = r.iface) :
    r.does dev family false t = .ok (t.linked family r) := by
  rw [Record.does, if_neg (not_not.mpr h), Seen.ofFamily, if_pos ⟨by rw [linked_last, hlast], rfl⟩]

/-- Any other record of the family has an entry, if the interface is up. -/
theorem does_eq_enter {flags : ℕ} (h : r.family = family)
    (hnot : ¬ (t.last = r.iface ∧ doaliases = false)) (hflags : dev.flags r.iface = .ok flags)
    (hup : flags.testBit iffUp = true) :
    r.does dev family doaliases t = ({ t.linked family r with last := r.iface } : Seen).enter dev
      family r flags (if t.last = r.iface then ifiAlias else 0) := by
  rw [Record.does, if_neg (not_not.mpr h), Seen.ofFamily, linked_last, if_neg hnot, hflags]
  simp only [ioctlOrExit, Except.mapError, Fallible.ok_bind, hup, Bool.true_eq_false, if_false]

theorem does_of_up (hdev : dev.Up cfg family r.iface) (h : r.family = family)
    (hnot : ¬ (t.last = r.iface ∧ doaliases = false)) :
    ∃ t' ifi, r.does dev family doaliases t = .ok t' ∧ t'.last = r.iface ∧
      t'.list = t.list ++ [ifi] ∧ IsEntry family ifi (r, decide (r.iface = t.last)) := by
  obtain ⟨⟨flags, hflags, hup, hbrdaddr, hdstaddr⟩, hmtu⟩ := hdev
  rw [← cstring_cutName r] at hbrdaddr hdstaddr hmtu
  have henter : ∃ t', ({ t.linked family r with last := r.iface } : Seen).enter dev family r flags
      (if t.last = r.iface then ifiAlias else 0) = .ok t' := by
    obtain ⟨ifi, hifi⟩ := newIfi_ok hmtu hbrdaddr hdstaddr
    exact ⟨_, enter_eq_ok.mpr ⟨ifi, hifi, rfl⟩⟩
  obtain ⟨t', henter⟩ := henter
  obtain ⟨ifi, hifi, rfl⟩ := enter_eq_ok.mp henter
  obtain ⟨hname, hmyflags, -, -, haddr⟩ := newIfi_fields hifi
  refine ⟨_, ifi, (does_eq_enter h hnot hflags hup).trans henter, forget_last _ r,
    congrArg (· ++ [ifi]) (linked_list t r), ?_, haddr, ?_⟩
  · rw [IfiInfo.ifname, hname, cstring_entryName]
  · rw [IfiInfo.isAlias, hmyflags]
    by_cases hsame : t.last = r.iface
    · simp [hsame, ifiAlias]
    · have hsame' : ¬ r.iface = t.last := fun h => hsame h.symm
      simp [hsame, hsame']

end Step

/-! ### All records -/

/-- The records of the family for which there are entries, and whether they are taken for
aliases. -/
def picked (doaliases : Bool) : List UInt8 → List (Record cfg) → List (Record cfg × Bool)
  | _, [] => []
  | last, r :: recs =>
    if last = r.iface ∧ doaliases = false then picked doaliases last recs
    else (r, decide (r.iface = last)) :: picked doaliases r.iface recs

/-- **The entries**, if all interfaces are up. -/
theorem foldlM_does (doaliases : Bool) : ∀ (recs : List (Record cfg)) (t : Seen),
    (∀ r ∈ recs, r.family = family → dev.Up cfg family r.iface) →
    ∃ t' es, recs.foldlM (Record.does dev family doaliases) t = .ok t' ∧ t'.list = t.list ++ es ∧
      List.Forall₂ (IsEntry family) es (picked doaliases t.last (ofFamily family recs)) := by
  intro recs
  induction recs with
  | nil => intro t _; exact ⟨t, [], rfl, (List.append_nil _).symm, .nil⟩
  | cons r recs ih =>
    intro t hup
    obtain ⟨hr, hrecs⟩ := List.forall_mem_cons.mp hup
    by_cases hfamily : r.family = family
    · have hof : ofFamily family (r :: recs) = r :: ofFamily family recs :=
        List.filter_cons_of_pos (decide_eq_true hfamily)
      rw [hof, picked]
      by_cases hsame : t.last = r.iface ∧ doaliases = false
      · obtain ⟨hlast, rfl⟩ := hsame
        obtain ⟨t', es, hfold, hlist, hes⟩ := ih (t.linked family r) hrecs
        rw [linked_last] at hes
        rw [linked_list] at hlist
        rw [List.foldlM_cons, does_of_last hfamily hlast, if_pos ⟨hlast, rfl⟩]
        exact ⟨t', es, hfold, hlist, hes⟩
      · obtain ⟨t₁, ifi, hdoes, hlast, hlist, hifi⟩ := does_of_up (hr hfamily) hfamily hsame
        obtain ⟨t', es, hfold, hlist', hes⟩ := ih t₁ hrecs
        rw [hlast] at hes
        rw [hlist, List.append_assoc] at hlist'
        rw [List.foldlM_cons, hdoes, if_neg hsame]
        exact ⟨t', ifi :: es, hfold, hlist', .cons hifi hes⟩
    · have hof : ofFamily family (r :: recs) = ofFamily family recs :=
        List.filter_cons_of_neg (by simpa using hfamily)
      obtain ⟨t', es, hfold, hlist, hes⟩ := ih (t.linked family r) hrecs
      rw [linked_last] at hes
      rw [linked_list] at hlist
      rw [hof, List.foldlM_cons, does_of_ne hfamily]
      exact ⟨t', es, hfold, hlist, hes⟩

/-- The same for the loop over the buffer. -/
theorem ifconfLoop_entries (recs : List (Record cfg)) (slack : List UInt8)
    (hup : ∀ r ∈ recs, r.family = family → dev.Up cfg family r.iface) :
    ∃ es, ifconfLoop cfg dev family doaliases (dump recs ++ slack) (dump recs).length =
        some (.ok es) ∧
      List.Forall₂ (IsEntry family) es (picked doaliases [] (ofFamily family recs)) := by
  obtain ⟨t, es, hfold, hlist, hes⟩ := foldlM_does doaliases recs .init hup
  refine ⟨es, ?_, hes⟩
  rw [ifconfLoop_eq, runRecords, hfold]
  exact congrArg (fun l => some (Except.ok l)) hlist

/-! ### Which records have entries -/

section Picked

variable {es : List IfiInfo} {recs : List (Record cfg)} {last : List UInt8}

/-- Without aliases: those whose interface is not that of the record before. -/
theorem picked_false : ∀ (recs : List (Record cfg)) (last : List UInt8),
    (picked false last recs).map (·.1.iface) =
      ((recs.map Record.iface).destutter' (· ≠ ·) last).tail := by
  intro recs
  induction recs with
  | nil => intro last; rfl
  | cons r recs ih =>
    intro last
    rw [picked, List.map_cons]
    by_cases hsame : last = r.iface
    · rw [if_pos ⟨hsame, rfl⟩, List.destutter'_cons_neg _ (not_not.mpr hsame), ih]
    · rw [if_neg fun h => hsame h.1, List.destutter'_cons_pos _ hsame, List.map_cons, ih,
        List.tail_cons, cons_tail_destutter']

/-- With aliases: all of them, and those are taken for aliases whose interface is that of the record
before. -/
theorem picked_true : ∀ (recs : List (Record cfg)) (last : List UInt8),
    (picked true last recs).map Prod.fst = recs ∧
      (picked true last recs).map Prod.snd = repeats last (recs.map Record.iface) := by
  intro recs
  induction recs with
  | nil => intro last; exact ⟨rfl, rfl⟩
  | cons r recs ih =>
    intro last
    obtain ⟨hfst, hsnd⟩ := ih r.iface
    rw [picked, if_neg (by simp), List.map_cons, List.map_cons, List.map_cons, repeats, hfst, hsnd]
    exact ⟨rfl, rfl⟩

theorem map_eq_of_forall₂ {α β γ : Type*} {R : α → β → Prop} {f : α → γ} {g : β → γ}
    {as : List α} {bs : List β} (h : List.Forall₂ R as bs) (hR : ∀ a b, R a b → f a = g b) :
    as.map f = bs.map g := by
  induction h with
  | nil => rfl
  | cons hab _ ih => rw [List.map_cons, List.map_cons, hR _ _ hab, ih]

/-- The entries without aliases. -/
theorem ifnames_eq (h : List.Forall₂ (IsEntry family) es (picked false last recs)) :
    es.map IfiInfo.ifname = ((recs.map Record.iface).destutter' (· ≠ ·) last).tail := by
  rw [← picked_false]
  exact map_eq_of_forall₂ h fun _ _ he => he.ifname_eq

/-- The entries with aliases. -/
theorem entries_eq (h : List.Forall₂ (IsEntry family) es (picked true last recs)) :
    es.map (fun ifi => (ifi.ifname, ifi.addr)) =
        recs.map (fun r => (r.iface, copied cfg family r.ifrAddr)) ∧
      es.map IfiInfo.isAlias = repeats last (recs.map Record.iface) := by
  obtain ⟨hfst, hsnd⟩ := picked_true recs last
  constructor
  · have hmap : es.map (fun ifi => (ifi.ifname, ifi.addr)) = (picked true last recs).map
        ((fun r => (r.iface, copied cfg family r.ifrAddr)) ∘ Prod.fst) :=
      map_eq_of_forall₂ h fun _ _ he => Prod.ext he.ifname_eq he.addr_eq
    rw [hmap, ← List.map_map, hfst]
  · rw [← hsnd]
    exact map_eq_of_forall₂ h fun _ _ he => he.isAlias_eq

end Picked

/-- If equal items stand next to each other, there is one of each. -/
theorem onePerInterface_of_grouped {recs : List (Record cfg)} {es : List IfiInfo}
    (hes : es.map IfiInfo.ifname = ((ifaces family recs).destutter' (· ≠ ·) []).tail)
    (hgrouped : Grouped (ifaces family recs)) (hhead : (ifaces family recs).head? ≠ some []) :
    OnePerInterface family recs es := by
  unfold OnePerInterface
  cases hifaces : ifaces family recs with
  | nil =>
    rw [hes, hifaces]
    exact ⟨List.nodup_nil, fun _ => Iff.rfl⟩
  | cons x xs =>
    rw [hifaces] at hes hgrouped hhead
    have hx : [] ≠ x := fun h => hhead (by rw [h, List.head?_cons])
    rw [hes, List.destutter'_cons_pos _ hx, List.tail_cons]
    exact ⟨(nodup_destutter'_iff xs x).mpr hgrouped, fun _ => mem_destutter'_iff xs x⟩

/-- **The entries are right exactly if the records of an interface stand next to each other**, with
no record of another interface between them, and the first name is not empty.  All interfaces are
up. -/
theorem aliases_iff (cfg : Config) (dev : Dev) (family : ℕ) (recs : List (Record cfg))
    (slack : List UInt8) (hup : ∀ r ∈ recs, r.family = family → dev.Up cfg family r.iface) :
    ((∃ es, ifconfLoop cfg dev family false (dump recs ++ slack) (dump recs).length =
          some (.ok es) ∧ OnePerInterface family recs es) ∧
      ∃ es, ifconfLoop cfg dev family true (dump recs ++ slack) (dump recs).length =
          some (.ok es) ∧ OnePerRecord family recs es) ↔
      Grouped (ifaces family recs) ∧ (ifaces family recs).head? ≠ some [] := by
  obtain ⟨es, hloop, hes⟩ := ifconfLoop_entries recs slack hup
  obtain ⟨es', hloop', hes'⟩ := ifconfLoop_entries recs slack hup
  obtain ⟨hrecs, halias⟩ := entries_eq hes'
  rw [← repeats_eq_again_iff]
  constructor
  · rintro ⟨-, es'', hloop'', -, halias''⟩
    rw [hloop'] at hloop''
    cases hloop''
    rw [← halias'', halias]
    rfl
  · intro h
    obtain ⟨hgrouped, hhead⟩ := (repeats_eq_again_iff _ _).mp h
    exact ⟨⟨es, hloop, onePerInterface_of_grouped (ifnames_eq hes) hgrouped hhead⟩,
      es', hloop', hrecs, halias.trans h⟩

/-! ### A small machine -/

section Small

/-- A machine whose socket addresses have no length member. -/
def linux : Config := ⟨.little, 10, 0, false, true, false, true, true, true⟩

/-- All interfaces are up, and have no other flag. -/
def allUp : Dev := ⟨fun _ => .ok 1, fun _ => .ok 1500, fun _ => .ok [], fun _ => .ok []⟩

/-- A record of the family `AF_INET`. -/
def inetRecord (name : List UInt8) (hname : name.length < ifnamsiz) (host : UInt8) :
    Record linux where
  ifrName := name ++ List.replicate (ifnamsiz - name.length) 0
  ifrAddr := [2, 0, 0, 0, 10, 0, 0, host, 0, 0, 0, 0, 0, 0, 0, 0]
  name_length := by
    rw [List.length_append, List.length_replicate]
    omega
  name_end := List.mem_append_right _ (List.mem_replicate.mpr ⟨by omega, rfl⟩)
  addr_length := rfl
  link_le h := (by cases h)
  inet6_le h := absurd (show 2 = 10 from h) (by decide)

/-- `eth0`, `eth1` and `eth0:1` -/
def eth0 : Record linux := inetRecord [0x65, 0x74, 0x68, 0x30] (by decide) 1

@[inherit_doc eth0]
def eth1 : Record linux := inetRecord [0x65, 0x74, 0x68, 0x31] (by decide) 2

@[inherit_doc eth0]
def eth0Alias : Record linux := inetRecord [0x65, 0x74, 0x68, 0x30, 0x3a, 0x31] (by decide) 3

theorem allUp_up (family : ℕ) (name : List UInt8) : allUp.Up linux family name where
  flags := ⟨1, rfl, rfl, fun _ _ _ => ⟨[], rfl⟩, fun _ _ _ => ⟨[], rfl⟩⟩
  mtu _ := ⟨1500, rfl⟩

end Small

/-- The alias stands behind its interface. -/
theorem aliases_iff_grouped :
    (∃ es, ifconfLoop linux allUp afInet false (dump [eth0, eth0Alias, eth1] ++ []) 96 =
        some (.ok es) ∧ OnePerInterface afInet [eth0, eth0Alias, eth1] es) ∧
      ∃ es, ifconfLoop linux allUp afInet true (dump [eth0, eth0Alias, eth1] ++ []) 96 =
        some (.ok es) ∧ OnePerRecord afInet [eth0, eth0Alias, eth1] es := by
  refine (aliases_iff linux allUp afInet [eth0, eth0Alias, eth1] []
    fun r _ _ => allUp_up afInet r.iface).mpr ⟨?_, by decide⟩
  have hsame : eth0Alias.iface = eth0.iface := by decide
  exact grouped_cons_cons.mpr ⟨grouped_of_length_lt (by decide), fun _ => hsame⟩

/-- **The records of an interface need not stand next to each other**: `eth0` has two entries,
and its second address is not taken for an alias. -/
theorem aliases_fail :
    (∃ es, ifconfLoop linux allUp afInet false (dump [eth0, eth1, eth0Alias]) 96 = some (.ok es) ∧
        es.map IfiInfo.ifname = [eth0.iface, eth1.iface, eth0.iface] ∧
        ¬ OnePerInterface afInet [eth0, eth1, eth0Alias] es) ∧
      ∃ es, ifconfLoop linux allUp afInet true (dump [eth0, eth1, eth0Alias]) 96 = some (.ok es) ∧
        es.map IfiInfo.isAlias = [false, false, false] ∧
        ¬ OnePerRecord afInet [eth0, eth1, eth0Alias] es := by
  refine ⟨⟨_, rfl, by decide, fun h => ?_⟩, ⟨_, rfl, by decide, fun h => ?_⟩⟩
  · exact absurd h.1 (by decide)
  · exact absurd h.2 (by decide)

end TcpIp.Ifi
