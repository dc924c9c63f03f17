import Mathlib.Data.Int.Notation
import Mathlib.Data.List.TakeWhile
import Mathlib.Tactic.Common
import TcpIp.Lib.Fallible

/-!
# Names and addresses

The data of the library `libgai`, an implementation of `getaddrinfo` and
`getnameinfo`, and what it asks the system for.  The resolver, the services
database, the conversions between addresses and text, the allocator and the byte
order of the machine are components of `Env`; the functions of the library are
programs in `M` that take an `Env`.

Strings are lists of characters without the terminating zero.  Ports are kept as
the source keeps them, in network byte order.

## Main definitions

* `Env` — the system.
* `Exit`, `M` — how a call may end without a result, and programs that may.
* `Hints`, `Addrinfo` — what `getaddrinfo` takes and returns.
-/

namespace TcpIp.Gai

/-- A string of the source. -/
abbrev CString := List Char

/-! ### Constants -/

def afUnspec : ℤ := 0
def afLocal : ℤ := 1
def afInet : ℤ := 2
def afInet6 : ℤ := 10

def sockStream : ℤ := 1
def sockDgram : ℤ := 2
def sockRaw : ℤ := 3

def aiPassive : BitVec 32 := 1
def aiCanonname : BitVec 32 := 2

/-- `AI_CLONE`, the internal flag of an entry that stands for every socket type. -/
def aiClone : BitVec 32 := 4

/-- `flags & flag`, as a condition. -/
def hasFlag (flags flag : BitVec 32) : Bool := flags &&& flag != 0

def niNofqdn : BitVec 32 := 1
def niNumerichost : BitVec 32 := 2
def niNamereqd : BitVec 32 := 4
def niNumericserv : BitVec 32 := 8
def niDgram : BitVec 32 := 16

def niMaxhost : ℕ := 1025
def niMaxserv : ℕ := 32

/-- The size of `sun_path`. -/
def sunPathSize : ℕ := 108

/-- The error returns. -/
inductive Eai where
  | addrfamily | again | badflags | fail | family | memory | nodata | noname | service | socktype
  | system
  deriving DecidableEq, Repr

/-- The value of an error return in `addrinfo.h`. -/
def Eai.code : Eai → ℕ
  | .addrfamily => 1
  | .again => 2
  | .badflags => 3
  | .fail => 4
  | .family => 5
  | .memory => 6
  | .nodata => 7
  | .noname => 8
  | .service => 9
  | .socktype => 10
  | .system => 11

/-- No error is returned as `0`. -/
theorem Eai.code_ne_zero (e : Eai) : e.code ≠ 0 := by
  cases e <;> decide

/-- A caller can tell the errors apart. -/
theorem Eai.code_injective : Function.Injective Eai.code := by
  intro e e' h
  cases e <;> cases e' <;> first | rfl | cases h

/-! ### Addresses -/

/-- An address of one of the families. -/
inductive Addr where
  | in4 (a : BitVec 32)
  | in6 (a : BitVec 128)
  | un (path : CString)
  deriving DecidableEq, Repr

def Addr.family : Addr → ℤ
  | .in4 _ => afInet
  | .in6 _ => afInet6
  | .un _ => afLocal

/-- A socket address; the port is in network byte order. -/
inductive Sockaddr where
  | in4 (port : UInt16) (addr : BitVec 32)
  | in6 (port : UInt16) (addr : BitVec 128)
  | un (path : CString)
  deriving DecidableEq, Repr

/-- The socket address of an address and a port. -/
def Addr.sockaddr (port : UInt16) : Addr → Sockaddr
  | .in4 a => .in4 port a
  | .in6 a => .in6 port a
  | .un path => .un path

namespace Sockaddr

def addr : Sockaddr → Addr
  | in4 _ a => .in4 a
  | in6 _ a => .in6 a
  | un path => .un path

/-- The port, for the families that have one. -/
def port : Sockaddr → Option UInt16
  | in4 p _ => some p
  | in6 p _ => some p
  | un _ => none

@[simp] theorem addr_sockaddr (p : UInt16) (a : Addr) : (a.sockaddr p).addr = a := by
  cases a <;> rfl

end Sockaddr

/-- `hints`. -/
structure Hints where
  flags : BitVec 32 := 0
  family : ℤ := afUnspec
  socktype : ℤ := 0
  protocol : ℤ := 0
  deriving DecidableEq, Repr

/-- An entry of the result; the list takes the place of `ai_next`. -/
structure Addrinfo where
  flags : BitVec 32
  family : ℤ
  socktype : ℤ
  protocol : ℤ
  canonname : Option CString
  addr : Sockaddr
  deriving DecidableEq, Repr

/-! ### The system -/

/-- `h_errno` after a lookup that failed. -/
inductive HErrno where
  | hostNotFound | tryAgain | noRecovery | noData
  | other (code : ℤ)
  deriving DecidableEq, Repr

/-- The answer of the resolver: a name and addresses of one family. -/
structure Hostent where
  name : CString
  addrs : List (BitVec 32) ⊕ List (BitVec 128)

namespace Hostent

/-- `h_addrtype`. -/
def addrtype (h : Hostent) : ℤ :=
  match h.addrs with
  | .inl _ => afInet
  | .inr _ => afInet6

/-- `h_addr_list`. -/
def addrList (h : Hostent) : List Addr :=
  match h.addrs with
  | .inl as => as.map .in4
  | .inr as => as.map .in6

theorem family_of_mem {h : Hostent} {a : Addr} (ha : a ∈ h.addrList) : a.family = h.addrtype := by
  rcases h with ⟨name, as | as⟩
  · obtain ⟨b, -, rfl⟩ := List.mem_map.mp ha
    rfl
  · obtain ⟨b, -, rfl⟩ := List.mem_map.mp ha
    rfl

end Hostent

/-- The protocols asked for in the services database. -/
inductive Proto where
  | tcp | udp
  deriving DecidableEq, Repr

/-- What the library gets from the system. -/
structure Env where
  /-- The machine keeps numbers in network byte order. -/
  bigEndian : Bool
  /-- Whether the `n`-th allocation succeeds. -/
  alloc : ℕ → Bool
  inetPton4 : CString → Option (BitVec 32)
  inetPton6 : CString → Option (BitVec 128)
  inetNtop4 : BitVec 32 → CString
  inetNtop6 : BitVec 128 → CString
  gethostbyname2 : CString → ℤ → Except HErrno Hostent
  /-- `gethostbyname`, with or without `RES_USE_INET6`. -/
  gethostbyname : Bool → CString → Except HErrno Hostent
  /-- The name found for an address, if any; `h_name` may be `NULL`. -/
  gethostbyaddr : Addr → Option (Option CString)
  /-- `s_port`, in network byte order. -/
  getservbyname : CString → Proto → Option UInt16
  getservbyport : UInt16 → Option Proto → Option (Option CString)
  /-- `nodename`. -/
  uname : Option CString

/-- How a call ends that does not return `0`. -/
inductive Exit where
  /-- It returns an error. -/
  | eai (e : Eai)
  /-- `err_quit`: the process is gone. -/
  | quit
  deriving DecidableEq, Repr

/-- Programs that may end early; the state counts the allocations. -/
abbrev M := StateT ℕ (Except Exit)

/-- `malloc`, `calloc` and `strdup`. -/
def allocate (env : Env) : M Unit := fun n =>
  if env.alloc n then .ok ((), n + 1) else .error (.eai .memory)

/-- `EAI_MEMORY`, in a system that may run out of memory. -/
def Env.MemFail (env : Env) (e : Exit) : Prop := e = .eai .memory ∧ ∃ n, env.alloc n = false

theorem allocate_post (env : Env) : Fallible.Post (allocate env) (fun _ => True) env.MemFail := by
  intro n
  unfold allocate
  split
  · next h =>
    split at h
    · trivial
    · cases h
  · next h =>
    split at h
    · cases h
    · next hn =>
      cases h
      exact ⟨rfl, n, by simpa using hn⟩

/-! ### Characters and numbers -/

/-- `isxdigit`. -/
def isXDigit (c : Char) : Bool :=
  c.isDigit || decide ('a' ≤ c ∧ c ≤ 'f') || decide ('A' ≤ c ∧ c ≤ 'F')

/-- `isdigit(s[0])`. -/
def startsWithDigit : CString → Bool
  | [] => false
  | c :: _ => c.isDigit

/-- `atoi`, for a string that starts with a digit. -/
def atoi (s : CString) : ℕ := Nat.ofDigitChars 10 (s.takeWhile Char.isDigit) 0

/-- `snprintf(.., "%d", n)` in a buffer that is large enough. -/
def decimal (n : ℕ) : CString := Nat.toDigits 10 n

/-- The two bytes of a number exchanged. -/
def swapBytes (x : UInt16) : UInt16 := .ofNat (x.toNat % 256 * 256 + x.toNat / 256)

/-- `htons`, which is also `ntohs`. -/
def Env.htons (env : Env) (x : UInt16) : UInt16 := if env.bigEndian then x else swapBytes x

@[inherit_doc Env.htons]
abbrev Env.ntohs (env : Env) (x : UInt16) : UInt16 := env.htons x

theorem toNat_swapBytes (x : UInt16) :
    (swapBytes x).toNat = x.toNat % 256 * 256 + x.toNat / 256 := by
  have hlt := x.toNat_lt
  rw [swapBytes, UInt16.toNat_ofNat', Nat.mod_eq_of_lt (by omega)]

theorem swapBytes_swapBytes (x : UInt16) : swapBytes (swapBytes x) = x := by
  have hlt := x.toNat_lt
  have hlow : (swapBytes x).toNat % 256 = x.toNat / 256 := by
    rw [toNat_swapBytes]
    omega
  have hhigh : (swapBytes x).toNat / 256 = x.toNat % 256 := by
    rw [toNat_swapBytes]
    omega
  apply UInt16.toNat_inj.mp
  rw [toNat_swapBytes, hlow, hhigh]
  omega

@[simp] theorem ntohs_htons (env : Env) (x : UInt16) : env.ntohs (env.htons x) = x := by
  unfold Env.ntohs Env.htons
  split
  · rfl
  · exact swapBytes_swapBytes x

theorem decimal_ne_nil (n : ℕ) : decimal n ≠ [] := Nat.toDigits_ne_nil

theorem isDigit_of_mem_decimal {n : ℕ} {c : Char} (hc : c ∈ decimal n) : c.isDigit = true :=
  Nat.isDigit_of_mem_toDigits (by decide) (by decide) hc

theorem startsWithDigit_decimal (n : ℕ) : startsWithDigit (decimal n) = true := by
  cases h : decimal n with
  | nil => exact absurd h (decimal_ne_nil n)
  | cons c t => exact isDigit_of_mem_decimal (by rw [h]; exact List.mem_cons_self)

/-- What is printed is read back. -/
@[simp] theorem atoi_decimal (n : ℕ) : atoi (decimal n) = n := by
  have hall : (decimal n).takeWhile Char.isDigit = decimal n := by
    rw [List.takeWhile_eq_self_iff]
    intro c hc
    exact isDigit_of_mem_decimal hc
  rw [atoi, hall]
  exact Nat.ofDigitChars_toDigits (by decide) (by decide)

/-- A port needs five digits at most. -/
theorem length_decimal_port (x : UInt16) : (decimal x.toNat).length ≤ 5 := by
  have hlt := x.toNat_lt
  exact (Nat.length_toDigits_le_iff (by decide) (by decide)).mpr (by omega)

end TcpIp.Gai
