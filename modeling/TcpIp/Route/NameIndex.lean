import Mathlib.Data.List.Flatten
import Mathlib.Data.List.Nodup
import TcpIp.Route.Dump

/-!
# Names and indices of interfaces

`libroute` gets the names and the indices of the interfaces from the interface list of a
routing socket.  `if_nameindex` returns them all, `if_nametoindex` and `if_indextoname`
look one of them up.

`if_nameindex` allocates as many bytes as the list has.  It stores the structures that it
returns from the start of this block on and the names from its end on, and behind the last
structure one that marks the end.  The block is modelled by how far the two parts reach: a
write that is not between them makes the result `corrupt`.

## Main definitions

* `ifNameindex`, `ifNametoindex`, `ifIndextoname` — the functions.
* `Item`, `Dump` — a well-formed interface list.

## Main results

* `lookups_iff` — the three functions agree with the list **exactly if** the list has room
  for the structure that marks the end.
-/

namespace TcpIp.Route

open Bytes Frames

variable (abi : Abi)

/-! ### Strings -/

/-- `strncmp(a, b, n) == 0`. -/
def strncmpEq : List UInt8 → List UInt8 → ℕ → Bool
  | _, _, 0 => true
  | a :: as, b :: bs, n + 1 => a == b && (a == 0 || strncmpEq as bs n)
  | _, _, _ + 1 => false

/-! ### The functions -/

/-- The link-level address of the message at `ifm`, if it is about an interface and carries
one. -/
def linkAddr (mem : List UInt8) (ifm : ℕ) : Option ℕ :=
  if ifmType mem ifm = rtmIfinfo then
    match rtiInfo abi.order mem abi.ifMsghdr ifm rtaxIfp with
    | some sa => if saFamily mem sa = afLink then some sa else none
    | none => none
  else none

/-- The block of `if_nameindex`. -/
structure Block where
  /-- Up to where structures have been stored. -/
  ifptr : ℕ
  /-- From where on names have been stored. -/
  namptr : ℤ
  /-- The structures, with the names they point to. -/
  pairs : List (ℕ × List UInt8)
  deriving DecidableEq, Repr

/-- `sizeof(struct if_nameindex)`. -/
def sizeofNameindex : ℕ := 16

/-- There is room for a structure. -/
def Block.Room (b : Block) : Prop := (b.ifptr + sizeofNameindex : ℤ) ≤ b.namptr

instance (b : Block) : Decidable b.Room := inferInstanceAs (Decidable (_ ≤ _))

/-- The body of the loop of `if_nameindex`. -/
def addName (mem : List UInt8) (b : Block) (ifm : ℕ) : Except Unit Block :=
  match linkAddr abi mem ifm with
  | none => .ok b
  | some sdl =>
    let nlen := sdlNlen mem sdl
    let b := { b with namptr := b.namptr - (nlen + 1) }
    -- neither the name nor the structure is written over the other part
    if b.Room then
      .ok { b with
        ifptr := b.ifptr + sizeofNameindex
        pairs := b.pairs ++
          [(sdlIndex abi.order mem sdl, cstring (slice mem (sdlData sdl) nlen))] }
    else .error ()

/-- What `if_nameindex` returns. -/
inductive Nameindex where
  | null
  /-- Something has been written outside of the block or over another part of it. -/
  | corrupt
  | list (pairs : List (ℕ × List UInt8))
  deriving DecidableEq, Repr

/-- `if_nameindex`.  `net` is `net_rt_iflist(0, idx, &len)` for each `idx`, and `malloc`
says whether the block is allocated. -/
def ifNameindex (net : ℕ → Option (List UInt8)) (malloc : Bool) : Option Nameindex :=
  match net 0 with
  | none => some .null
  | some buf =>
    if malloc then
      match forMessages abi buf (addName abi buf) ⟨0, buf.length, []⟩ with
      | none => none
      | some (.error _) => some .corrupt
      | some (.ok (b, _)) => some (if b.Room then .list b.pairs else .corrupt)
    else some .null

/-- The body of the loop of `if_nametoindex`, which leaves the loop with the index. -/
def matchName (mem name : List UInt8) (_ : Unit) (ifm : ℕ) : Except ℕ Unit :=
  match linkAddr abi mem ifm with
  | none => .ok ()
  | some sdl =>
    if sdlNlen mem sdl = name.length ∧
        strncmpEq (mem.drop (sdlData sdl)) (name ++ [0]) (sdlNlen mem sdl) = true then
      .error (sdlIndex abi.order mem sdl)
    else .ok ()

/-- `if_nametoindex`. -/
def ifNametoindex (net : ℕ → Option (List UInt8)) (name : List UInt8) : Option ℕ :=
  match net 0 with
  | none => some 0
  | some buf =>
    match forMessages abi buf (matchName abi buf name) () with
    | none => none
    | some (.error idx) => some idx
    | some (.ok _) => some 0

/-- The body of the loop of `if_indextoname`, which leaves the loop with the name. -/
def matchIndex (mem : List UInt8) (idx : ℕ) (_ : Unit) (ifm : ℕ) : Except (List UInt8) Unit :=
  match linkAddr abi mem ifm with
  | none => .ok ()
  | some sdl =>
    if sdlIndex abi.order mem sdl = idx then
      let slen := min (ifnamsiz - 1) (sdlNlen mem sdl)
      .error (cstring (slice mem (sdlData sdl) slen))
    else .ok ()

/-- `if_indextoname`, with `some none` for a null pointer. -/
def ifIndextoname (net : ℕ → Option (List UInt8)) (idx : ℕ) : Option (Option (List UInt8)) :=
  match net idx with
  | none => some none
  | some buf =>
    match forMessages abi buf (matchIndex abi buf idx) () with
    | none => none
    | some (.error name) => some (some name)
    | some (.ok _) => some none

/-! ### Well-formed lists -/

/-- A message of a list: about an interface, or another one. -/
inductive Item where
  | link (l : Link abi)
  | other (m : Msg abi.order) (type_ne : ifmType m.bytes 0 ≠ rtmIfinfo)

variable {abi}

def Item.msg : Item abi → Msg abi.order
  | .link l => l.toMsg
  | .other m _ => m

def Item.bytes (i : Item abi) : List UInt8 := i.msg.bytes

/-- The index and the name of the interface. -/
def Item.pair : Item abi → Option (ℕ × List UInt8)
  | .link l => some (l.index, l.name)
  | .other _ _ => none

/-- The list in memory. -/
def dump (items : List (Item abi)) : List UInt8 := (items.map Item.bytes).flatten

/-- The interfaces of a list. -/
def pairs (items : List (Item abi)) : List (ℕ × List UInt8) := items.filterMap Item.pair

/-! ### One message -/

section Message

variable {mem pre post : List UInt8}

/-- What is found in a message about an interface. -/
theorem Link.linkAddr_at (l : Link abi) (hmem : mem = pre ++ (l.bytes ++ post)) :
    ∃ q, linkAddr abi mem pre.length = some q ∧ sdlIndex abi.order mem q = l.index ∧
      sdlNlen mem q = l.name.length ∧ slice mem (sdlData q) l.name.length = l.name := by
  have hhdr := abi.le_ifMsghdr
  obtain ⟨pre', post', hmem', hpre'⟩ := l.carries.mem_eq hmem l.ifp
  obtain ⟨hfamily, hidx, hnlen, hdata⟩ := l.members_at hmem'
  have htype : ifmType mem pre.length = rtmIfinfo := (l.type_at hmem).trans l.type_eq
  have hrti : rtiInfo abi.order mem abi.ifMsghdr pre.length rtaxIfp = some pre'.length := by
    rw [l.carries.rtiInfo_eq (by omega) hmem, l.ifp, hpre']
    rfl
  refine ⟨pre'.length, ?_, hidx, hnlen, hdata⟩
  simp only [linkAddr, htype, hrti, hfamily, if_true]

/-- Nothing is found in another message. -/
theorem linkAddr_other {m : Msg abi.order} (htype : ifmType m.bytes 0 ≠ rtmIfinfo)
    (hmem : mem = pre ++ (m.bytes ++ post)) : linkAddr abi mem pre.length = none := by
  have hne : ifmType mem pre.length ≠ rtmIfinfo := by
    rw [m.type_at hmem]
    exact htype
  rw [linkAddr, if_neg hne]

end Message

/-! ### A whole list -/

section List

variable {items : List (Item abi)} {σ ρ : Type*}

/-- What a body does that is only about the interfaces. -/
def onPair (h : σ → ℕ × List UInt8 → Except ρ σ) (s : σ) (i : Item abi) : Except ρ σ :=
  match i.pair with
  | none => .ok s
  | some p => h s p

theorem run_onPair (h : σ → ℕ × List UInt8 → Except ρ σ) :
    ∀ (items : List (Item abi)) (pos : ℕ) (s : σ),
    run Item.bytes (fun s _ i => onPair h s i) pos items s = (pairs items).foldlM h s := by
  intro items
  induction items with
  | nil => intro pos s; rfl
  | cons i items ih =>
    intro pos s
    cases i with
    | other m htype =>
      simp only [run, onPair, Item.pair, pairs, List.filterMap_cons]
      exact ih _ s
    | link l =>
      simp only [run, onPair, Item.pair, pairs, List.filterMap_cons, List.foldlM_cons]
      cases h s (l.index, l.name) with
      | error r => rfl
      | ok s' => exact ih _ s'

/-- **The loop over a well-formed list** is a loop over its interfaces, if the body is only
about them. -/
theorem forMessages_dump {body : σ → ℕ → Except ρ σ} {h : σ → ℕ × List UInt8 → Except ρ σ} (s : σ)
    (hnone : ∀ s ifm, linkAddr abi (dump items) ifm = none → body s ifm = .ok s)
    (hsome : ∀ (l : Link abi) s ifm q, linkAddr abi (dump items) ifm = some q →
      sdlIndex abi.order (dump items) q = l.index → sdlNlen (dump items) q = l.name.length →
      slice (dump items) (sdlData q) l.name.length = l.name → body s ifm = h s (l.index, l.name)) :
    forMessages abi (dump items) body s = some (((pairs items).foldlM h s).map (·, 0)) := by
  have hrun := @forMessages_eq_run abi (Item abi) σ ρ Item.msg (dump items) body
    (fun s _ i => onPair h s i) items s rfl ?_
  · rw [hrun]
    exact congrArg (fun r => some (Except.map (·, 0) r)) (run_onPair h items 0 s)
  · intro i _ pre post hmem s
    cases i with
    | other m htype => exact hnone s _ (linkAddr_other htype hmem)
    | link l =>
      obtain ⟨q, hq, hidx, hnlen, hdata⟩ := l.linkAddr_at hmem
      exact hsome l s _ q hq hidx hnlen hdata

end List

/-! ### The block -/

/-- The bytes that some pairs take in the block. -/
def need : List (ℕ × List UInt8) → ℕ
  | [] => 0
  | p :: ps => sizeofNameindex + (p.2.length + 1) + need ps

/-- What the body of the loop of `if_nameindex` does with an interface. -/
def Block.add (b : Block) (p : ℕ × List UInt8) : Except Unit Block :=
  let b := { b with namptr := b.namptr - (p.2.length + 1) }
  if b.Room then
    .ok { b with ifptr := b.ifptr + sizeofNameindex, pairs := b.pairs ++ [p] }
  else .error ()

/-- Pairs are put into the block as long as there is room for them. -/
theorem foldlM_add : ∀ (ps : List (ℕ × List UInt8)) (b : Block), b.ifptr + need ps ≤ b.namptr →
    ∃ b', ps.foldlM Block.add b = .ok b' ∧ b'.pairs = b.pairs ++ ps ∧
      b'.namptr - b'.ifptr = b.namptr - b.ifptr - need ps := by
  intro ps
  induction ps with
  | nil =>
    intro b _
    exact ⟨b, rfl, (List.append_nil _).symm, by simp [need]⟩
  | cons p ps ih =>
    intro b hroom
    simp only [need] at hroom
    have hadd : b.add p = .ok
        { ifptr := b.ifptr + sizeofNameindex, namptr := b.namptr - (p.2.length + 1)
          pairs := b.pairs ++ [p] } := by
      rw [Block.add, if_pos]
      simp only [Block.Room]
      omega
    obtain ⟨b', hb', hpairs, hleft⟩ := ih
      { ifptr := b.ifptr + sizeofNameindex, namptr := b.namptr - (p.2.length + 1)
        pairs := b.pairs ++ [p] } (by simp only; omega)
    refine ⟨b', ?_, ?_, ?_⟩
    · rw [List.foldlM_cons, hadd]
      exact hb'
    · rw [hpairs, List.append_assoc, List.singleton_append]
    · rw [hleft]
      simp only [need]
      omega

theorem length_le_block {blk : List (Option (List UInt8))} {sa : List UInt8} (h : some sa ∈ blk) :
    sa.length ≤ (block blk).length := by
  have hmem : sa ∈ blk.map (·.getD []) := List.mem_map.mpr ⟨some sa, h, rfl⟩
  have hsub : [sa].Sublist (blk.map (·.getD [])) := List.singleton_sublist.mpr hmem
  simpa [block] using hsub.flatten.length_le

/-- A message about an interface is longer than what it takes in the block. -/
theorem Link.need_le (l : Link abi) : 2 * sizeofNameindex + l.name.length + 1 ≤ l.bytes.length := by
  obtain ⟨front, rest, hfront, hbytes⟩ := l.carries.layout
  have hblock := length_le_block (mem_of_getD l.ifp)
  have hsdl := l.le_length_sdl
  have hhdr := abi.le_ifMsghdr
  have hlen := congrArg List.length hbytes
  simp only [List.length_append] at hlen
  simp only [sizeofNameindex]
  omega

theorem need_pairs_le (items : List (Item abi)) :
    need (pairs items) + sizeofNameindex * (pairs items).length ≤ (dump items).length := by
  induction items with
  | nil => exact Nat.le_refl 0
  | cons i items ih =>
    cases i with
    | other m htype =>
      simp only [pairs, List.filterMap_cons, Item.pair, dump, List.map_cons, List.flatten_cons,
        List.length_append] at ih ⊢
      omega
    | link l =>
      have hl := l.need_le
      have hbytes : (Item.link l).bytes = l.bytes := rfl
      simp only [pairs, List.filterMap_cons, Item.pair, dump, List.map_cons, List.flatten_cons,
        List.length_append, List.length_cons, need, hbytes, sizeofNameindex] at ih hl ⊢
      omega

/-- **When the block is large enough.** -/
theorem ifNameindex_eq {items : List (Item abi)} {net : ℕ → Option (List UInt8)}
    (hnet : net 0 = some (dump items)) :
    ifNameindex abi net true =
      some (if sizeofNameindex ≤ (dump items).length then .list (pairs items) else .corrupt) := by
  have hneed := need_pairs_le items
  obtain ⟨b, hb, hpairs, hleft⟩ := foldlM_add (pairs items) ⟨0, (dump items).length, []⟩
    (by simp only; omega)
  have hloop := @forMessages_dump abi items Block Unit (addName abi (dump items)) Block.add
    ⟨0, (dump items).length, []⟩ ?_ ?_
  · rw [hb] at hloop
    have hroom : b.Room ↔ sizeofNameindex ≤ (dump items).length := by
      have hrest : (b.namptr - b.ifptr : ℤ) = (dump items).length - need (pairs items) := by
        rw [hleft]
        simp
      rw [Block.Room]
      -- with an interface in the list there is room in any case
      cases hps : pairs items with
      | nil =>
        rw [hps, need] at hrest
        omega
      | cons p ps =>
        rw [hps, List.length_cons, Nat.mul_succ] at hneed
        rw [hps] at hrest
        omega
    simp only [ifNameindex, hnet, hloop, if_true, Except.map, hroom, hpairs, List.nil_append]
  · intro b ifm hnone
    rw [addName, hnone]
  · intro l b ifm q hq hidx hnlen hdata
    simp only [addName, hq, hidx, hnlen, hdata, cstring_eq l.nul]
    rfl

/-! ### The lookups -/

/-- A loop that is left at the first item with some property. -/
theorem foldlM_search {γ ρ : Type*} (t : γ → Bool) (v : γ → ρ) (ps : List γ) :
    ps.foldlM (fun (_ : Unit) p => if t p then Except.error (v p) else .ok ()) () =
      match ps.find? t with
      | some p => .error (v p)
      | none => .ok () := by
  induction ps with
  | nil => rfl
  | cons p ps ih =>
    rw [List.foldlM_cons, List.find?_cons]
    cases t p with
    | true => rfl
    | false => exact ih

/-- `strncmp` compares the strings if the first one has no zero byte. -/
theorem strncmpEq_iff : ∀ (n : ℕ) (as bs : List UInt8), 0 ∉ as.take n → n ≤ as.length →
    n ≤ bs.length → (strncmpEq as bs n = true ↔ as.take n = bs.take n) := by
  intro n
  induction n with
  | zero => intro as bs _ _ _; simp [strncmpEq]
  | succ n ih =>
    intro as bs hnul has hbs
    cases as with
    | nil => simp at has
    | cons a as =>
      cases bs with
      | nil => simp at hbs
      | cons b bs =>
        simp only [List.take_succ_cons, List.mem_cons, not_or] at hnul
        have hne : (a == 0) = false := by simpa using fun h => hnul.1 h.symm
        rw [strncmpEq, hne, Bool.false_or, Bool.and_eq_true, beq_iff_eq,
          ih as bs hnul.2 (by simpa using has) (by simpa using hbs), List.take_succ_cons,
          List.take_succ_cons, List.cons.injEq]

section Lookups

variable {items : List (Item abi)} {net : ℕ → Option (List UInt8)}

theorem ifNametoindex_eq (hnet : net 0 = some (dump items)) (name : List UInt8) :
    ifNametoindex abi net name =
      some ((((pairs items).find? fun p => p.2 == name).map Prod.fst).getD 0) := by
  have hloop := @forMessages_dump abi items Unit ℕ (matchName abi (dump items) name)
    (fun _ p => if p.2 == name then .error p.1 else .ok ()) () ?_ ?_
  · rw [foldlM_search] at hloop
    rw [ifNametoindex, hnet]
    simp only [hloop]
    cases (pairs items).find? fun p => p.2 == name with
    | none => rfl
    | some p => rfl
  · intro _ ifm hnone
    rw [matchName, hnone]
  · intro l _ ifm q hq hidx hnlen hdata
    have hiff : (l.name.length = name.length ∧
        strncmpEq ((dump items).drop (sdlData q)) (name ++ [0]) l.name.length = true) ↔
        (l.name == name) = true := by
      rw [slice] at hdata
      have hlong : l.name.length ≤ ((dump items).drop (sdlData q)).length := by
        have := congrArg List.length hdata
        rw [List.length_take] at this
        omega
      rw [beq_iff_eq]
      constructor
      · rintro ⟨hlen, heq⟩
        rw [strncmpEq_iff _ _ _ (by rw [hdata]; exact l.nul) hlong (by simp; omega), hdata, hlen,
          List.take_left] at heq
        exact heq
      · rintro rfl
        refine ⟨rfl, ?_⟩
        rw [strncmpEq_iff _ _ _ (by rw [hdata]; exact l.nul) hlong (by simp), hdata, List.take_left]
    simp only [matchName, hq, hidx, hnlen, hiff]

theorem ifIndextoname_eq {idx : ℕ} (hnet : net idx = some (dump items)) :
    ifIndextoname abi net idx = some (((pairs items).find? fun p => p.1 == idx).map Prod.snd) := by
  have hloop := @forMessages_dump abi items Unit (List UInt8) (matchIndex abi (dump items) idx)
    (fun _ p => if p.1 == idx then .error p.2 else .ok ()) () ?_ ?_
  · rw [foldlM_search] at hloop
    rw [ifIndextoname, hnet]
    simp only [hloop]
    cases (pairs items).find? fun p => p.1 == idx with
    | none => rfl
    | some p => rfl
  · intro _ ifm hnone
    rw [matchIndex, hnone]
  · intro l _ ifm q hq hidx hnlen hdata
    have hmin : min (ifnamsiz - 1) l.name.length = l.name.length := by
      have := l.name_lt
      rw [Nat.min_eq_right (by omega)]
    simp only [matchIndex, hq, hidx, hnlen, hmin, hdata, cstring_eq l.nul, beq_iff_eq]

/-- What `sysctl` returns: the whole list, and for an index the messages of that interface
only. -/
structure Serves (net : ℕ → Option (List UInt8)) (items : List (Item abi)) : Prop where
  all : net 0 = some (dump items)
  one : ∀ i ≠ 0, ∃ sub : List (Item abi), net i = some (dump sub) ∧
    ∀ p, p ∈ pairs sub ↔ p ∈ pairs items ∧ p.1 = i

theorem index_ne {p : ℕ × List UInt8} (hp : p ∈ pairs items) : p.1 ≠ 0 := by
  obtain ⟨i, -, hi⟩ := List.mem_filterMap.mp hp
  cases i with
  | link l =>
    rw [Item.pair, Option.some.injEq] at hi
    exact hi ▸ l.index_ne
  | other m htype => cases hi

/-- The first pair with a key is the only one. -/
theorem find?_key {κ : Type*} [BEq κ] [LawfulBEq κ] {f : ℕ × List UInt8 → κ}
    {ps : List (ℕ × List UInt8)} (hnodup : (ps.map f).Nodup) {p : ℕ × List UInt8} (hp : p ∈ ps) :
    ps.find? (fun q => f q == f p) = some p := by
  cases hfind : ps.find? (fun q => f q == f p) with
  | none =>
    have := List.find?_eq_none.mp hfind p hp
    simp at this
  | some q =>
    have hkey : f q = f p := by simpa using List.find?_some hfind
    rw [List.inj_on_of_nodup_map hnodup (List.mem_of_find?_eq_some hfind) hp hkey]

theorem find?_absent {κ : Type*} [BEq κ] [LawfulBEq κ] {f : ℕ × List UInt8 → κ}
    {ps : List (ℕ × List UInt8)} {k : κ} (hk : k ∉ ps.map f) :
    ps.find? (fun q => f q == k) = none := by
  rw [List.find?_eq_none]
  intro q hq heq
  exact hk (List.mem_map.mpr ⟨q, hq, by simpa using heq⟩)

section Served

variable (hserves : Serves net items)
include hserves

theorem ifNametoindex_of_mem (hname : ((pairs items).map Prod.snd).Nodup) {p : ℕ × List UInt8}
    (hp : p ∈ pairs items) : ifNametoindex abi net p.2 = some p.1 := by
  rw [ifNametoindex_eq hserves.all, find?_key (f := Prod.snd) hname hp]
  rfl

theorem ifNametoindex_of_notMem {n : List UInt8} (hn : n ∉ (pairs items).map Prod.snd) :
    ifNametoindex abi net n = some 0 := by
  rw [ifNametoindex_eq hserves.all, find?_absent (f := Prod.snd) hn]
  rfl

theorem ifIndextoname_of_mem (hidx : ((pairs items).map Prod.fst).Nodup) {p : ℕ × List UInt8}
    (hp : p ∈ pairs items) : ifIndextoname abi net p.1 = some (some p.2) := by
  obtain ⟨sub, hsub, hpairs⟩ := hserves.one p.1 (index_ne hp)
  rw [ifIndextoname_eq hsub]
  cases hfind : (pairs sub).find? (fun q => q.1 == p.1) with
  | none =>
    have := List.find?_eq_none.mp hfind p ((hpairs p).mpr ⟨hp, rfl⟩)
    simp at this
  | some q =>
    obtain ⟨hq, hkey⟩ := (hpairs q).mp (List.mem_of_find?_eq_some hfind)
    rw [List.inj_on_of_nodup_map hidx hq hp hkey]
    rfl

theorem ifIndextoname_of_notMem {i : ℕ} (hi : i ∉ (pairs items).map Prod.fst) :
    ifIndextoname abi net i = some none := by
  rcases eq_or_ne i 0 with rfl | hne
  · rw [ifIndextoname_eq hserves.all, find?_absent (f := Prod.fst) hi]
    rfl
  · obtain ⟨sub, hsub, hpairs⟩ := hserves.one i hne
    have habsent : i ∉ (pairs sub).map Prod.fst := by
      intro hmem
      obtain ⟨p, hp, rfl⟩ := List.mem_map.mp hmem
      exact hi (List.mem_map_of_mem ((hpairs p).mp hp).1)
    rw [ifIndextoname_eq hsub, find?_absent (f := Prod.fst) habsent]
    rfl

/-- The two lookups say which pairs are in the list. -/
theorem ifNametoindex_eq_some_iff (hname : ((pairs items).map Prod.snd).Nodup) {i : ℕ}
    {n : List UInt8} (hi : i ≠ 0) : ifNametoindex abi net n = some i ↔ (i, n) ∈ pairs items := by
  constructor
  · intro h
    by_cases hn : n ∈ (pairs items).map Prod.snd
    · obtain ⟨p, hp, rfl⟩ := List.mem_map.mp hn
      rw [ifNametoindex_of_mem hserves hname hp, Option.some.injEq] at h
      exact h ▸ hp
    · rw [ifNametoindex_of_notMem hserves hn, Option.some.injEq] at h
      exact absurd h.symm hi
  · exact fun hp => ifNametoindex_of_mem hserves hname hp

@[inherit_doc ifNametoindex_eq_some_iff]
theorem ifIndextoname_eq_some_iff (hidx : ((pairs items).map Prod.fst).Nodup) {i : ℕ}
    {n : List UInt8} : ifIndextoname abi net i = some (some n) ↔ (i, n) ∈ pairs items := by
  constructor
  · intro h
    by_cases hi : i ∈ (pairs items).map Prod.fst
    · obtain ⟨p, hp, rfl⟩ := List.mem_map.mp hi
      rw [ifIndextoname_of_mem hserves hidx hp, Option.some.injEq, Option.some.injEq] at h
      exact h ▸ hp
    · rw [ifIndextoname_of_notMem hserves hi] at h
      cases h
  · exact fun hp => ifIndextoname_of_mem hserves hidx hp

end Served

end Lookups

/-- The three functions agree with a list, and the two lookups with each other. -/
structure Agree (net : ℕ → Option (List UInt8)) (items : List (Item abi)) : Prop where
  nameindex : ifNameindex abi net true = some (.list (pairs items))
  nametoindex : ∀ p ∈ pairs items, ifNametoindex abi net p.2 = some p.1
  nametoindex_other : ∀ n, n ∉ (pairs items).map Prod.snd → ifNametoindex abi net n = some 0
  indextoname : ∀ p ∈ pairs items, ifIndextoname abi net p.1 = some (some p.2)
  indextoname_other : ∀ i, i ∉ (pairs items).map Prod.fst → ifIndextoname abi net i = some none
  inverse : ∀ i n, i ≠ 0 →
    (ifNametoindex abi net n = some i ↔ ifIndextoname abi net i = some (some n))

/-- **Which lists the functions agree with**: those with room for the structure that marks
the end, which every list with an interface has. -/
theorem lookups_iff {abi : Abi} {net : ℕ → Option (List UInt8)} {items : List (Item abi)}
    (hserves : Serves net items) (hidx : ((pairs items).map Prod.fst).Nodup)
    (hname : ((pairs items).map Prod.snd).Nodup) :
    Agree net items ↔ sizeofNameindex ≤ (dump items).length := by
  constructor
  · intro h
    have hlist := h.nameindex
    rw [ifNameindex_eq hserves.all] at hlist
    by_contra hshort
    rw [if_neg hshort] at hlist
    cases hlist
  · intro hroom
    refine ⟨?_, ?_, ?_, ?_, ?_, ?_⟩
    · rw [ifNameindex_eq hserves.all, if_pos hroom]
    · exact fun p hp => ifNametoindex_of_mem hserves hname hp
    · exact fun n hn => ifNametoindex_of_notMem hserves hn
    · exact fun p hp => ifIndextoname_of_mem hserves hidx hp
    · exact fun i hi => ifIndextoname_of_notMem hserves hi
    · intro i n hi
      rw [ifNametoindex_eq_some_iff hserves hname hi, ifIndextoname_eq_some_iff hserves hidx]

/-! ### Two lists -/

/-- A kernel with these messages. -/
def sysctl (items : List (Item abi)) (i : ℕ) : Option (List UInt8) :=
  some (dump (if i = 0 then items else items.filter fun it => it.pair.any fun p => p.1 == i))

theorem serves_sysctl (items : List (Item abi)) : Serves (sysctl items) items where
  all := by rw [sysctl, if_pos rfl]
  one := by
    intro i hi
    refine ⟨items.filter fun it => it.pair.any fun p => p.1 == i, ?_, ?_⟩
    · rw [sysctl, if_neg hi]
    · intro p
      simp only [pairs, List.mem_filterMap, List.mem_filter]
      constructor
      · rintro ⟨it, ⟨hit, hany⟩, hp⟩
        rw [hp, Option.any_some, beq_iff_eq] at hany
        exact ⟨⟨it, hit, hp⟩, hany⟩
      · rintro ⟨⟨it, hit, hp⟩, hkey⟩
        exact ⟨it, ⟨hit, by rw [hp, Option.any_some, beq_iff_eq]; exact hkey⟩, hp⟩

/-- The loopback interface is found. -/
theorem lookups_iff_lo0 : Agree (sysctl [.link (loInfo true)]) [.link (loInfo true)] :=
  (lookups_iff (serves_sysctl [.link (loInfo true)]) (by decide) (by decide)).mpr
    (by decide +kernel)

/-- **For an empty list the end is marked outside of the block.** -/
theorem empty_list_corrupt : Serves (sysctl ([] : List (Item amd64))) ([] : List (Item amd64)) ∧
    ifNameindex amd64 (sysctl ([] : List (Item amd64))) true = some .corrupt :=
  ⟨serves_sysctl [], by decide⟩

end TcpIp.Route
