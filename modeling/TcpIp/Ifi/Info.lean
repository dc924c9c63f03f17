import TcpIp.Ifi.Conf
import TcpIp.Lib.Buffer
import TcpIp.Route.IfiInfo

/-!
# Interfaces from `SIOCGIFCONF`

`get_ifi_info` of `lib/` goes through the records that `SIOCGIFCONF` has stored: a name of
`IFNAMSIZ` bytes each, and a socket address.  For the records of the family that is asked for it
makes entries of a list.

The names are changed in place: a colon, which stands in the name of an alias, is overwritten with
a zero.  Of the names that have been seen the last one is kept, so that an alias is told from the
first address of its interface.  A link-level address comes in a record of its own, and what is kept
of it are pointers into the buffer, to the name of the record and to the hardware address.

The lengths of the records depend on how the library is built, `Config`.

## Main definitions

* `Config`, `Dev` — how the library is built, and what the kernel says of an interface.
* `ifconfLoop` — the loop over the buffer.
* `getIfiInfo` — `get_ifi_info`, with the loop that finds the size of the buffer.
-/

namespace TcpIp.Ifi

open Bytes Buffer Frames
open Route (sdlIndex sdlNlen sdlAlen sdlData iffUp iffBroadcast iffPointopoint ifiName ifiHaddr
  ifnamsiz)

/-! ### The library and the kernel -/

def afInet : ℕ := 2
def sizeofSockaddr : ℕ := 16
def sizeofSockaddrIn : ℕ := 16
def sizeofSockaddrIn6 : ℕ := 28
def ifiAlias : ℕ := 1

/-- `:` -/
def colon : UInt8 := 0x3a

/-- How the library is built. -/
structure Config where
  order : Order
  afInet6 : ℕ
  afLink : ℕ
  /-- `HAVE_SOCKADDR_SA_LEN` -/
  saLen : Bool
  /-- `IPV6` -/
  ipv6 : Bool
  /-- `HAVE_SOCKADDR_DL_STRUCT` -/
  sockaddrDl : Bool
  /-- `SIOCGIFMTU` and `HAVE_STRUCT_IFREQ_IFR_MTU` -/
  ifrMtu : Bool
  /-- `SIOCGIFBRDADDR` -/
  brdaddr : Bool
  /-- `SIOCGIFDSTADDR` -/
  dstaddr : Bool
  deriving DecidableEq, Repr

/-- What the kernel says of the interface with some name.  For an address that is what stands in
the structure from the address on. -/
structure Dev where
  flags : List UInt8 → Except Errno ℕ
  mtu : List UInt8 → Except Errno ℕ
  brdaddr : List UInt8 → Except Errno (List UInt8)
  dstaddr : List UInt8 → Except Errno (List UInt8)

/-- How the function ends early. -/
inductive Exit where
  /-- `err_sys`. -/
  | errSys (e : Errno)
  /-- A string that goes over the end of the buffer. -/
  | undefined
  deriving DecidableEq, Repr

/-- `struct ifi_info`.  The numbers are kept in sixteen bits. -/
structure IfiInfo where
  name : List UInt8
  index : ℕ
  mtu : ℕ
  haddr : List UInt8
  hlen : ℕ
  flags : ℕ
  myflags : ℕ
  addr : Option (List UInt8)
  brdaddr : Option (List UInt8)
  dstaddr : Option (List UInt8)
  deriving DecidableEq, Repr

/-! ### The loop -/

section Loop

variable (cfg : Config) (dev : Dev) (family : ℕ) (doaliases : Bool)

/-- `sa_family` -/
def saFamily (mem : List UInt8) (sa : ℕ) : ℕ :=
  if cfg.saLen then byte mem (sa + 1) else get cfg.order mem sa 2

/-- The length of the address in a record. -/
def addrLen (mem : List UInt8) (sa : ℕ) : ℕ :=
  if cfg.saLen then max sizeofSockaddr (byte mem sa)
  else if cfg.ipv6 = true ∧ saFamily cfg mem sa = cfg.afInet6 then sizeofSockaddrIn6
  else sizeofSockaddr

/-- `Ioctl`, which does not return if the call fails. -/
def ioctlOrExit {α : Type} (x : Except Errno α) : Except Exit α := x.mapError .errSys

/-- `strchr(s, ':')`, and the colon is overwritten. -/
def cutColon (mem : List UInt8) (s : ℕ) : Except Exit (List UInt8) :=
  if colon ∈ cstring mem s then
    .ok (writeAt mem (s + (cstring mem s).idxOf colon) [0])
  else if 0 ∈ mem.drop s then .ok mem
  else .error .undefined

/-- The variables of the loop. -/
structure Vars where
  mem : List UInt8
  lastname : List UInt8
  /-- `NULL` at first. -/
  sdlname : Option ℕ
  idx : ℕ
  /-- Without a meaning at first. -/
  haddr : ℕ
  hlen : ℕ
  list : List IfiInfo
  deriving DecidableEq, Repr

/-- A link-level address is remembered. -/
def Vars.linked (s : Vars) (ifr : ℕ) : Vars :=
  let sdl := ifr + ifnamsiz
  if cfg.sockaddrDl = true ∧ saFamily cfg s.mem sdl = cfg.afLink then
    { s with
      sdlname := some ifr
      idx := sdlIndex cfg.order s.mem sdl
      haddr := sdlData sdl + sdlNlen s.mem sdl
      hlen := sdlAlen s.mem sdl }
  else s

/-- An address that the kernel is asked for, if that is wanted. -/
def asked (wanted : Bool) (sa : Except Errno (List UInt8)) (size : ℕ) :
    Except Exit (Option (List UInt8)) :=
  if wanted then (ioctlOrExit sa).map fun sa => some (sa.take size) else .ok none

/-- The addresses of an entry: `ifi_addr`, `ifi_brdaddr` and `ifi_dstaddr`.  The address in the
buffer is the start of `sa`. -/
def addresses (name : List UInt8) (flags : ℕ) (sa : List UInt8) :
    Except Exit (Option (List UInt8) × Option (List UInt8) × Option (List UInt8)) :=
  let pointopoint := cfg.dstaddr && flags.testBit iffPointopoint
  if family = afInet then do
    let brdaddr ← asked (cfg.brdaddr && flags.testBit iffBroadcast) (dev.brdaddr name)
      sizeofSockaddrIn
    let dstaddr ← asked pointopoint (dev.dstaddr name) sizeofSockaddrIn
    return (some (sa.take sizeofSockaddrIn), brdaddr, dstaddr)
  else if family = cfg.afInet6 then do
    let dstaddr ← asked pointopoint (dev.dstaddr name) sizeofSockaddrIn6
    return (some (sa.take sizeofSockaddrIn6), none, dstaddr)
  else .ok (none, none, none)

/-- `ifi_mtu` -/
def ifiMtu (name : List UInt8) : Except Exit ℕ :=
  if cfg.ifrMtu then ioctlOrExit (dev.mtu name) else .ok 0

/-- A new entry, for the interface with the name at the start of `ifrName`. -/
def newIfi (ifrName sa : List UInt8) (flags myflags idx hlen : ℕ) (haddr : List UInt8) :
    Except Exit IfiInfo := do
  let name := cstring ifrName 0
  let mtu ← ifiMtu cfg dev name
  let (addr, brdaddr, dstaddr) ← addresses cfg dev family name flags sa
  return {
    name := ifrName.take (ifiName - 1) ++ [0]
    index := idx % 65536
    mtu := mtu % 65536
    haddr
    hlen
    flags := flags % 65536
    myflags
    addr
    brdaddr
    dstaddr }

/-- A link-level address of another interface is forgotten. -/
def Vars.forget (s : Vars) (ifr : ℕ) : Vars :=
  if s.sdlname.any fun sdlname => cstring s.mem sdlname = cstring s.mem ifr then s
  else { s with idx := 0, hlen := 0 }

/-- The entry for the record at `ifr` is made. -/
def Vars.enter (s : Vars) (ifr flags myflags : ℕ) : Except Exit Vars :=
  let s := s.forget ifr
  let hlen := min s.hlen ifiHaddr
  let haddr := List.replicate ifiHaddr 0
  let haddr := if s.hlen ≠ 0 then writeAt haddr 0 (slice s.mem s.haddr hlen) else haddr
  (newIfi cfg dev family (slice s.mem ifr ifnamsiz) (s.mem.drop (ifr + ifnamsiz)) flags myflags
    s.idx hlen haddr).map fun ifi => { s with list := s.list ++ [ifi] }

/-- A record of the family that is asked for. -/
def Vars.ofFamily (s : Vars) (ifr : ℕ) : Except Exit Vars := do
  let mem ← cutColon s.mem ifr
  let name := slice mem ifr ifnamsiz
  -- `strncmp(lastname, ifr_name, IFNAMSIZ) == 0`
  let same := cstring (s.lastname.take ifnamsiz) 0 = cstring name 0
  if same ∧ doaliases = false then .ok { s with mem }
  else do
    let flags ← ioctlOrExit (dev.flags (cstring name 0))
    let s := { s with mem, lastname := name }
    if flags.testBit iffUp = false then .ok s
    else s.enter cfg dev family ifr flags (if same then ifiAlias else 0)

/-- The body of the loop. -/
def ifconfBody (s : Vars) (ifr : ℕ) : Except Exit Vars :=
  let s := s.linked cfg ifr
  if saFamily cfg s.mem (ifr + ifnamsiz) ≠ family then .ok s
  else s.ofFamily cfg dev family doaliases ifr

/-- How far the next record is. -/
def stride (s : Vars) (ifr : ℕ) : ℕ := ifnamsiz + addrLen cfg s.mem (ifr + ifnamsiz)

/-- The variables before the loop. -/
def Vars.init (mem : List UInt8) : Vars := ⟨mem, List.replicate ifnamsiz 0, none, 0, 0, 0, []⟩

/-- The loop over the first `ifcLen` bytes of the buffer. -/
def ifconfLoop (mem : List UInt8) (ifcLen : ℕ) : Option (Except Exit (List IfiInfo)) :=
  (walk (stride cfg) (ifconfBody cfg dev family doaliases) ifcLen ifcLen 0 (.init mem)).map
    fun r => r.map Vars.list

/-- `get_ifi_info`.  What is in the buffer behind the records is given by `slack`.  The value is
`none` if the loop that finds the size has not ended after `fuel` turns. -/
def getIfiInfo (ioctl : ℕ → Except Errno (List UInt8)) (size fuel : ℕ) (slack : List UInt8) :
    Option (Except Exit (List IfiInfo)) :=
  (sizing ioctl size fuel).bind fun
    | .failed e => some (.error (.errSys e))
    | .done _ stored => ifconfLoop cfg dev family doaliases (stored ++ slack) stored.length

end Loop

end TcpIp.Ifi
