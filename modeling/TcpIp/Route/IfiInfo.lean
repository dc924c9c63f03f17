import TcpIp.Route.Dump

/-!
# Interfaces and their addresses

`get_ifi_info` of `route/` makes a list of the interfaces that are up and of their addresses
from the interface list of a routing socket.  A message `RTM_IFINFO` starts an entry, and
the messages `RTM_NEWADDR` behind it fill in the addresses; if aliases are wanted, every
further address gets an entry of its own.

The loop keeps the entry to be filled in, `ifi`, from one message to the next.  The message
about an interface that is down is skipped, but the messages about its addresses are not:
they fill in the entry of the interface before.  The name is printed with a format in which
the length of the name is the least width and not the precision, so that it goes on up to
the next zero byte.

The new entry is always the last one, so that the list is kept as the entries before `ifi`
and `ifi` itself.  A copy of an address structure is kept with the position of the message
that it is from; no step reads the position.

## Main definitions

* `getIfiInfo` — `get_ifi_info`.
* `Iface`, `dumpIfaces` — an interface with its addresses, and the list of messages.
* `ownerAt` — the interface to which a message belongs.

## Main results

* `getIfiInfo_eq` — the loop over the messages is a loop over the interfaces.
* `run_addrs` — the rule for the messages about the addresses of an interface.
-/

namespace TcpIp.Route

open Bytes Frames

variable (abi : Abi)

/-! ### The function

The flags of an interface are given by the numbers of their bits. -/

def iffUp : ℕ := 0
def iffBroadcast : ℕ := 1
def iffPointopoint : ℕ := 4
def ifiName : ℕ := 16
def ifiHaddr : ℕ := 8

/-- A copy of an address structure, from the message at `ifm`. -/
structure Copy where
  ifm : ℕ
  bytes : List UInt8
  deriving DecidableEq, Repr

/-- `struct ifi_info`. -/
structure IfiInfo where
  name : List UInt8
  index : ℕ
  haddr : List UInt8
  hlen : ℕ
  flags : ℕ
  addr : Option Copy
  brdaddr : Option Copy
  dstaddr : Option Copy
  deriving DecidableEq, Repr

/-- The addresses of an entry. -/
def IfiInfo.copies (ifi : IfiInfo) : List Copy :=
  ifi.addr.toList ++ (ifi.brdaddr.toList ++ ifi.dstaddr.toList)

/-- How the loop ends early. -/
inductive Exit where
  /-- `err_quit`. -/
  | quit
  /-- Through a pointer that has no value, or over the end of the list. -/
  | undefined
  deriving DecidableEq, Repr

/-- `snprintf(ifi_name, IFI_NAME, "%*s", sdl_nlen, sdl_data)`.  The string goes on up to a
zero byte, wherever that is. -/
def printName (mem : List UInt8) (sdl : ℕ) : Except Exit (List UInt8) :=
  let data := mem.drop (sdlData sdl)
  if 0 ∈ data then
    let spaces := List.replicate (sdlNlen mem sdl - (cstring data).length) 0x20
    .ok ((spaces ++ cstring data).take (ifiName - 1))
  else .error .undefined

/-- `snprintf(ifi_name, IFI_NAME, "index %d", sdl_index)`. -/
def printIndex (index : ℕ) : List UInt8 :=
  (("index ".toList ++ Nat.toDigits 10 index).map fun c => UInt8.ofNat c.toNat).take (ifiName - 1)

/-- The entry for an interface with the address structure at `sa`.  The flags and the index
are kept in sixteen bits. -/
def newIfi (mem : List UInt8) (flags sa : ℕ) : Except Exit IfiInfo :=
  let ifi : IfiInfo := ⟨[], 0, [], 0, flags % 65536, none, none, none⟩
  if saFamily mem sa = afLink then
    let nlen := sdlNlen mem sa
    let index := sdlIndex abi.order mem sa
    (if 0 < nlen then printName mem sa else .ok (printIndex index)).map fun name =>
      { ifi with
        index
        name
        hlen := sdlAlen mem sa
        haddr := slice mem (sdlData sa + nlen) (min ifiHaddr (sdlAlen mem sa)) }
  else .ok ifi

/-- The entry for a further address. -/
def IfiInfo.alias (ifi : IfiInfo) : IfiInfo :=
  { ifi with addr := none, brdaddr := none, dstaddr := none }

/-- The addresses of a message are stored in an entry. -/
def IfiInfo.store (flags : ℕ) (rti : ℕ → Option Copy) (ifi : IfiInfo) : IfiInfo :=
  { ifi with
    addr := (rti rtaxIfa).or ifi.addr
    brdaddr := (if flags.testBit iffBroadcast then rti rtaxBrd else none).or ifi.brdaddr
    dstaddr := (if flags.testBit iffPointopoint then rti rtaxBrd else none).or ifi.dstaddr }

/-- `Calloc` and `memcpy` of the structure at `sa`. -/
def copySa (mem : List UInt8) (ifm sa : ℕ) : Copy := ⟨ifm, slice mem sa (saLen mem sa)⟩

/-- The copies of the structures of the message at `ifam`. -/
def rtiCopies (mem : List UInt8) (ifam i : ℕ) : Option Copy :=
  (rtiInfo abi.order mem abi.ifaMsghdr ifam i).map (copySa mem ifam)

/-- The variables of the loop. -/
structure State where
  /-- The entries before `ifi`. -/
  before : List IfiInfo
  /-- `ifi`, which has no value before the first entry. -/
  ifi : Option IfiInfo
  flags : ℕ
  deriving DecidableEq, Repr

/-- The list. -/
def State.all (s : State) : List IfiInfo := s.before ++ s.ifi.toList

/-- A message `RTM_IFINFO`. -/
def ifinfo (mem : List UInt8) (s : State) (ifm : ℕ) : Except Exit State :=
  let flags := ifmFlags abi.order mem ifm
  if flags.testBit iffUp then
    match rtiInfo abi.order mem abi.ifMsghdr ifm rtaxIfp with
    | some sa => (newIfi abi mem flags sa).map fun ifi => ⟨s.all, some ifi, flags⟩
    | none => .ok { s with flags }
  -- `continue`
  else .ok { s with flags }

/-- A message `RTM_NEWADDR` with the address structures `rti`. -/
def newaddr (doaliases : Bool) (rti : ℕ → Option Copy) (s : State) : Except Exit State :=
  match s.ifi with
  | none => .error .undefined
  | some ifi =>
    if ifi.addr.isSome then
      if doaliases then
        .ok { s with before := s.before ++ [ifi], ifi := some (ifi.alias.store s.flags rti) }
      else .ok s
    else .ok { s with ifi := some (ifi.store s.flags rti) }

/-- The body of the loop. -/
def ifiBody (doaliases : Bool) (mem : List UInt8) (s : State) (ifm : ℕ) : Except Exit State :=
  if ifmType mem ifm = rtmIfinfo then ifinfo abi mem s ifm
  else if ifmType mem ifm = rtmNewaddr then newaddr doaliases (rtiCopies abi mem ifm) s
  else .error .quit

/-- `get_ifi_info`, from what `Net_rt_iflist` has returned.  The value is `none` if the loop
does not end. -/
def getIfiInfo (buf : List UInt8) (doaliases : Bool) : Option (Except Exit (List IfiInfo)) :=
  (forMessages abi buf (ifiBody abi doaliases buf) ⟨[], none, 0⟩).map
    fun r => r.map fun x => x.1.all

theorem take_append_eq_iff {n : ℕ} {as : List UInt8} (h : as.length ≤ n) (bs : List UInt8) :
    (as ++ bs).take n = as ↔ as.length = n ∨ bs = [] := by
  rw [List.take_append, List.take_of_length_le h, List.append_right_eq_self, List.take_eq_nil_iff]
  constructor
  · rintro (hn | hbs)
    · exact .inl (by omega)
    · exact .inr hbs
  · rintro (hn | hbs)
    · exact .inl (by omega)
    · exact .inr hbs

/-! ### Interfaces -/

/-- A message about an address. -/
structure Newaddr extends Msg abi.order where
  blk : List (Option (List UInt8))
  type_eq : ifmType bytes 0 = rtmNewaddr
  carries : Carries abi.order abi.ifaMsghdr bytes blk

/-- The messages of an interface. -/
structure Iface where
  info : Link abi
  /-- A `struct sockaddr_dl` has at least twenty bytes. -/
  full : 24 ≤ info.sdl.length
  addrs : List (Newaddr abi)

variable {abi}

/-- The address structure at a place of `rti_info`. -/
def Newaddr.sa (a : Newaddr abi) (i : ℕ) : Option (List UInt8) := a.blk.getD i none

def Iface.flags (f : Iface abi) : ℕ := ifmFlags abi.order f.info.bytes 0

def Iface.up (f : Iface abi) : Bool := f.flags.testBit iffUp

/-- One of the messages of an interface. -/
inductive Rec (abi : Abi) where
  | info (f : Iface abi)
  | addr (a : Newaddr abi)

def Rec.msg : Rec abi → Msg abi.order
  | .info f => f.info.toMsg
  | .addr a => a.toMsg

def Rec.bytes (r : Rec abi) : List UInt8 := r.msg.bytes

def Iface.recs (f : Iface abi) : List (Rec abi) := .info f :: f.addrs.map .addr

def Iface.bytes (f : Iface abi) : List UInt8 := (f.recs.map Rec.bytes).flatten

/-- The list of messages. -/
def dumpIfaces (fs : List (Iface abi)) : List UInt8 := (fs.map Iface.bytes).flatten

/-- The interface to which the message at a position belongs. -/
def ownerAt : List (Iface abi) → ℕ → Option (Iface abi)
  | [], _ => none
  | f :: fs, pos => if pos < f.bytes.length then some f else ownerAt fs (pos - f.bytes.length)

/-- Where the name of an interface stands in its messages. -/
def Iface.nameAt (f : Iface abi) : ℕ := sdlData (saAt abi.ifMsghdr f.info.blk rtaxIfp)

/-! ### One message -/

section Message

variable {mem pre post : List UInt8}

/-- The copy of the address structure at a place of a message at `pos`. -/
def Newaddr.copy (a : Newaddr abi) (pos i : ℕ) : Option Copy :=
  (a.sa i).map fun sa => ⟨pos, sa.take (byte sa 0)⟩

theorem Padded.slice_at {sa : List UInt8} (h : Padded sa) (hmem : mem = pre ++ (sa ++ post)) :
    slice mem pre.length (saLen mem pre.length) = sa.take (byte sa 0) := by
  have hlen : saLen mem pre.length = byte sa 0 := by
    have hat := byte_append_add pre (sa ++ post) 0
    rw [← hmem, byte_append h.length_pos] at hat
    exact hat
  have hat := slice_append_add pre (sa ++ post) 0 (byte sa 0)
  rw [← hmem, slice_append (by rw [Nat.zero_add]; exact h.saLen_le)] at hat
  rw [hlen]
  exact hat

theorem rtiCopies_eq (a : Newaddr abi) (hmem : mem = pre ++ (a.bytes ++ post)) :
    rtiCopies abi mem pre.length = a.copy pre.length := by
  have hhdr := abi.le_ifaMsghdr
  funext i
  rw [rtiCopies, Newaddr.copy, a.carries.rtiInfo_eq (by omega) hmem, Newaddr.sa]
  cases hsa : a.blk.getD i none with
  | none => rfl
  | some sa =>
    obtain ⟨pre', post', hmem', hpre'⟩ := a.carries.mem_eq hmem hsa
    have hslice := (a.carries.padded sa (mem_of_getD hsa)).slice_at hmem'
    rw [Option.map_some, Option.map_some, Option.map_some, copySa, ← hpre', hslice]

theorem Iface.flags_at (f : Iface abi) (hmem : mem = pre ++ (f.info.bytes ++ post)) :
    ifmFlags abi.order mem pre.length = f.flags := by
  have hhdr := abi.le_ifMsghdr
  exact f.info.carries.flags_at (by omega) hmem

/-- What a message about an interface does. -/
def started (mem : List UInt8) (s : State) (pos : ℕ) (f : Iface abi) : Except Exit State :=
  if f.up then
    (newIfi abi mem f.flags (pos + saAt abi.ifMsghdr f.info.blk rtaxIfp)).map fun ifi =>
      ⟨s.all, some ifi, f.flags⟩
  else .ok { s with flags := f.flags }

/-- What a message does. -/
def Rec.does (doaliases : Bool) (mem : List UInt8) (s : State) (pos : ℕ) :
    Rec abi → Except Exit State
  | .info f => started mem s pos f
  | .addr a => newaddr doaliases (a.copy pos) s

theorem ifiBody_eq {doaliases : Bool} (r : Rec abi) (hmem : mem = pre ++ (r.bytes ++ post))
    (s : State) : ifiBody abi doaliases mem s pre.length = r.does doaliases mem s pre.length := by
  have hhdr := abi.le_ifMsghdr
  cases r with
  | info f =>
    have htype := (f.info.type_at hmem).trans f.info.type_eq
    rw [ifiBody, if_pos htype, ifinfo, f.flags_at hmem,
      f.info.carries.rtiInfo_eq (by omega) hmem, f.info.ifp]
    rfl
  | addr a =>
    have htype := (a.type_at hmem).trans a.type_eq
    rw [ifiBody, htype, if_neg (by decide), if_pos rfl, rtiCopies_eq a hmem]
    rfl

end Message

/-! ### A whole list -/

/-- What messages about addresses do, from the position `pos` on. -/
def runAddrs (doaliases : Bool) (pos : ℕ) (as : List (Newaddr abi)) (s : State) :
    Except Exit State :=
  run (fun a => a.bytes) (fun s pos a => newaddr doaliases (a.copy pos) s) pos as s

/-- What the messages of an interface do. -/
def Iface.does (doaliases : Bool) (mem : List UInt8) (s : State) (pos : ℕ) (f : Iface abi) :
    Except Exit State :=
  (started mem s pos f).bind (runAddrs doaliases (pos + f.info.bytes.length) f.addrs)

theorem run_recs (doaliases : Bool) (mem : List UInt8) (s : State) (pos : ℕ) (f : Iface abi) :
    run Rec.bytes (Rec.does doaliases mem) pos f.recs s = f.does doaliases mem s pos := by
  rw [Iface.recs, run, Iface.does, Rec.does]
  cases started mem s pos f with
  | error x => rfl
  | ok s' => exact run_map Rec.addr f.addrs _ s'

theorem dumpIfaces_eq (fs : List (Iface abi)) :
    dumpIfaces fs = ((fs.flatMap Iface.recs).map Rec.bytes).flatten := by
  induction fs with
  | nil => rfl
  | cons f fs ih =>
    rw [List.flatMap_cons, List.map_append, List.flatten_append, ← ih]
    rfl

theorem run_ifaces (doaliases : Bool) (mem : List UInt8) (fs : List (Iface abi)) (s : State) :
    run Rec.bytes (Rec.does doaliases mem) 0 (fs.flatMap Iface.recs) s =
      run Iface.bytes (Iface.does doaliases mem) 0 fs s := by
  have hdoes : (fun s pos f => run Rec.bytes (Rec.does doaliases mem) pos (Iface.recs f) s) =
      @Iface.does abi doaliases mem := by
    funext s pos f
    exact run_recs doaliases mem s pos f
  rw [run_flatMap, hdoes]
  rfl

/-- **The loop over the messages** is a loop over the interfaces. -/
theorem getIfiInfo_eq (doaliases : Bool) (fs : List (Iface abi)) :
    getIfiInfo abi (dumpIfaces fs) doaliases =
      some ((run Iface.bytes (Iface.does doaliases (dumpIfaces fs)) 0 fs ⟨[], none, 0⟩).map
        State.all) := by
  have hrun : forMessages abi (dumpIfaces fs) (ifiBody abi doaliases (dumpIfaces fs))
      ⟨[], none, 0⟩ = some ((run Rec.bytes (Rec.does doaliases (dumpIfaces fs)) 0
        (fs.flatMap Iface.recs) ⟨[], none, 0⟩).map (·, 0)) :=
    forMessages_eq_run _ (dumpIfaces_eq fs) fun r _ pre post hmem s => ifiBody_eq r hmem s
  rw [getIfiInfo, hrun, run_ifaces]
  cases run Iface.bytes (Iface.does doaliases (dumpIfaces fs)) 0 fs ⟨[], none, 0⟩ with
  | error x => rfl
  | ok s => rfl

/-! ### Where the messages stand -/

section Place

variable {all fs : List (Iface abi)} {f : Iface abi} {base : ℕ}

/-- The interfaces `fs` are the last ones of the list, and their messages start at `base`. -/
def Placed (all : List (Iface abi)) (base : ℕ) (fs : List (Iface abi)) : Prop :=
  ∃ xs, all = xs ++ fs ∧ (dumpIfaces xs).length = base

theorem dumpIfaces_append (xs fs : List (Iface abi)) :
    dumpIfaces (xs ++ fs) = dumpIfaces xs ++ dumpIfaces fs := by
  rw [dumpIfaces, List.map_append, List.flatten_append]
  rfl

theorem ownerAt_append (fs : List (Iface abi)) (k : ℕ) : ∀ xs : List (Iface abi),
    ownerAt (xs ++ fs) ((dumpIfaces xs).length + k) = ownerAt fs k := by
  intro xs
  induction xs with
  | nil => rw [List.nil_append]; exact congrArg _ (Nat.zero_add k)
  | cons x xs ih =>
    have hlen : (dumpIfaces (x :: xs)).length = x.bytes.length + (dumpIfaces xs).length := by
      rw [dumpIfaces, List.map_cons, List.flatten_cons, List.length_append]
      rfl
    rw [List.cons_append, ownerAt, hlen, if_neg (by omega), Nat.add_assoc,
      Nat.add_sub_cancel_left, ih]

theorem Placed.step (h : Placed all base (f :: fs)) : Placed all (base + f.bytes.length) fs := by
  obtain ⟨xs, rfl, rfl⟩ := h
  refine ⟨xs ++ [f], by rw [List.append_assoc, List.singleton_append], ?_⟩
  have hlast : dumpIfaces [f] = f.bytes := List.flatten_singleton
  rw [dumpIfaces_append, List.length_append, hlast]

theorem Placed.ownerAt_eq (h : Placed all base (f :: fs)) {k : ℕ} (hk : k < f.bytes.length) :
    ownerAt all (base + k) = some f := by
  obtain ⟨xs, rfl, rfl⟩ := h
  rw [ownerAt_append, ownerAt, if_pos hk]

theorem Placed.drop_eq (h : Placed all base (f :: fs)) (k : ℕ) :
    (dumpIfaces all).drop (base + k) = (dumpIfaces (f :: fs)).drop k := by
  obtain ⟨xs, rfl, rfl⟩ := h
  rw [dumpIfaces_append, ← List.drop_drop, List.drop_left]

theorem Iface.bytes_eq (f : Iface abi) :
    f.bytes = f.info.bytes ++ (f.addrs.map fun a => a.bytes).flatten := by
  rw [Iface.bytes, Iface.recs, List.map_cons, List.flatten_cons, List.map_map]
  rfl

/-- The message about the interface stands at the start of its messages. -/
theorem Placed.mem_eq (h : Placed all base (f :: fs)) :
    ∃ pre post, dumpIfaces all = pre ++ (f.info.bytes ++ post) ∧ pre.length = base := by
  obtain ⟨xs, rfl, rfl⟩ := h
  refine ⟨dumpIfaces xs, (f.addrs.map fun a => a.bytes).flatten ++ dumpIfaces fs, ?_, rfl⟩
  rw [dumpIfaces_append, ← List.append_assoc f.info.bytes, ← f.bytes_eq]
  rfl

theorem started_down (mem : List UInt8) (s : State) (pos : ℕ) (hdown : f.up = false) :
    started mem s pos f = .ok { s with flags := f.flags } := by
  rw [started, hdown]
  rfl

/-- **The rule for the messages about the addresses of an interface.** -/
theorem run_addrs {doaliases : Bool} {E : Exit → Prop} {I : List (Newaddr abi) → State → Prop}
    (h : Placed all base (f :: fs))
    (hstep : ∀ pos a as s, ownerAt all pos = some f → a ∈ f.addrs → I (a :: as) s →
      Ends E (I as) (newaddr doaliases (a.copy pos) s)) {s : State} (hs : I f.addrs s) :
    Ends E (I []) (runAddrs doaliases (base + f.info.bytes.length) f.addrs s) := by
  have hends := @run_ends UInt8 (Newaddr abi) State Exit (fun a => a.bytes)
    (fun s pos a => newaddr doaliases (a.copy pos) s) E
    (fun pos as s => (∃ k, pos = base + k ∧
      k + (as.map fun a => a.bytes).flatten.length = f.bytes.length) ∧
      (∀ a ∈ as, a ∈ f.addrs) ∧ I as s) ?_ f.addrs (base + f.info.bytes.length) s
    ⟨⟨_, rfl, by rw [f.bytes_eq, List.length_append]⟩, fun a ha => ha, hs⟩
  · exact hends.imp (fun _ hE => hE) (fun _ hI => hI.2.2)
  · rintro pos a as s ⟨⟨k, rfl, hk⟩, hsub, hI⟩
    have hlen := a.four_le
    rw [List.map_cons, List.flatten_cons, List.length_append] at hk
    have howner : ownerAt all (base + k) = some f := h.ownerAt_eq (by omega)
    have hnext := hstep (base + k) a as s howner (hsub a List.mem_cons_self) hI
    refine hnext.imp (fun _ hE => hE) fun s' hs' => ⟨⟨k + a.bytes.length, ?_, ?_⟩, ?_, hs'⟩
    · rw [Nat.add_assoc]
    · omega
    · exact fun b hb => hsub b (List.mem_cons_of_mem a hb)

end Place

end TcpIp.Route
