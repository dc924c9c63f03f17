import Mathlib.Data.Int.Notation
import TcpIp.Lib.Text

/-!
# Socket addresses as text

`sock_ntop` writes a socket address as text into a buffer of 128 bytes that is kept from one call
to the next.  For an Internet address that is the text of `inet_ntop`, followed by the port if that
is not zero; the text of an IPv6 address is put into brackets then.

`inet_ntop` is not part of the repository's library, and is given by what is known of its texts.
The program is taken to be built with `IPV6`, `AF_UNIX` and `HAVE_SOCKADDR_DL_STRUCT`.

## Main definitions

* `InetNtop` — what is known of `inet_ntop`.
* `sockNtop` — the function, with the buffer before and after it.
* `Internet.text` — the text of an Internet address.

## Main results

* `sockNtop_returns` — nothing is written behind the buffer, whatever the address.
* `shown_eq_text` — what is in the buffer for an Internet address.
* `sockNtop_injective` — **the text of an Internet address stands for that address only.**
-/

namespace TcpIp.Ntop

open Buffer Text

/-! ### The function -/

/-- The end of a string. -/
def nul : Char := Char.ofNat 0

/-- A character of the text of an IPv4 address. -/
def IsV4Char (c : Char) : Prop := c.isDigit = true ∨ c = '.'

instance (c : Char) : Decidable (IsV4Char c) := inferInstanceAs (Decidable (_ ∨ _))

/-- A character of the text of an IPv6 address. -/
def IsV6Char (c : Char) : Prop :=
  c.isDigit = true ∨ ('a' ≤ c ∧ c ≤ 'f') ∨ ('A' ≤ c ∧ c ≤ 'F') ∨ c = ':' ∨ c = '.'

instance (c : Char) : Decidable (IsV6Char c) := inferInstanceAs (Decidable (_ ∨ _))

/-- **What is known of `inet_ntop`**: the texts for the addresses of the two families. -/
structure InetNtop where
  v4 : UInt32 → List Char
  v6 : BitVec 128 → List Char
  v4_injective : ∀ a b, v4 a = v4 b → a = b
  v4_chars : ∀ a, ∀ c ∈ v4 a, IsV4Char c
  v4_length : ∀ a, (v4 a).length ≤ 15
  v6_injective : ∀ a b, v6 a = v6 b → a = b
  v6_chars : ∀ a, ∀ c ∈ v6 a, IsV6Char c
  v6_length : ∀ a, (v6 a).length ≤ 45
  v6_colons : ∀ a, 2 ≤ (v6 a).count ':'

/-- The socket addresses that the function tells apart.  The ports are in the byte order of the
host. -/
inductive Sockaddr where
  | inet (addr : UInt32) (port : UInt16)
  | inet6 (addr : BitVec 128) (port : UInt16)
  /-- `sun_path`, up to its zero byte. -/
  | unix (path : List Char)
  /-- `sdl_nlen`, `sdl_data` up to a zero byte, and `sdl_index`. -/
  | link (nlen : ℕ) (data : List Char) (index : ℕ)
  | other (family : ℕ)
  deriving DecidableEq, Repr

/-- `%d` for a number that is not negative. -/
def decimal (n : ℕ) : List Char := Nat.toDigits 10 n

/-- `%d` -/
def percentD (x : ℤ) : List Char := if x < 0 then '-' :: decimal x.natAbs else decimal x.natAbs

/-- The string that `snprintf` leaves in a buffer of `size` bytes. -/
def snprintf (size : ℕ) (text : List Char) : List Char := text.take (size - 1)

def sizeofStr : ℕ := 128
def sizeofPortstr : ℕ := 8

/-- The buffer, with what an earlier call has left in it. -/
structure Str where
  chars : List Char
  length_eq : chars.length = sizeofStr

/-- What the function returns, and the buffer. -/
structure Ret where
  /-- A position in the buffer; `none` for `NULL`. -/
  ptr : Option ℕ
  str : List Char
  deriving DecidableEq, Repr

section Function

variable (ntop : InetNtop)

/-- `sock_ntop`.  The value is `none` if something is written behind the end of the buffer. -/
def sockNtop (str : List Char) (sa : Sockaddr) (salen : ℤ) : Option Ret :=
  match sa with
  | .inet addr port =>
    -- `inet_ntop` fails if the text does not fit
    if sizeofStr < (ntop.v4 addr).length + 1 then some ⟨none, str⟩
    else do
      let str ← strcpy nul str 0 (ntop.v4 addr)
      if port ≠ 0 then
        let portstr := snprintf sizeofPortstr (':' :: decimal port.toNat)
        let str ← strcat nul str portstr
        return ⟨some 0, str⟩
      else return ⟨some 0, str⟩
  | .inet6 addr port =>
    let str := writeAt str 0 ['[']
    if sizeofStr - 1 < (ntop.v6 addr).length + 1 then some ⟨none, str⟩
    else do
      let str ← strcpy nul str 1 (ntop.v6 addr)
      if port ≠ 0 then
        let portstr := snprintf sizeofPortstr (']' :: ':' :: decimal port.toNat)
        let str ← strcat nul str portstr
        return ⟨some 0, str⟩
      else return ⟨some 1, str⟩
  | .unix path => do
    let str ← if path = [] then strcpy nul str 0 "(no pathname bound)".toList
      else strcpy nul str 0 (snprintf sizeofStr path)
    return ⟨some 0, str⟩
  | .link nlen data index => do
    let text := if 0 < nlen then
        -- the width of the name is the least one
        List.replicate (nlen - data.length) ' ' ++ data ++
          " (index ".toList ++ decimal index ++ [')']
      else "AF_LINK, index=".toList ++ decimal index
    let str ← strcpy nul str 0 (snprintf sizeofStr text)
    return ⟨some 0, str⟩
  | .other family => do
    let text := "sock_ntop: unknown AF_xxx: ".toList ++ decimal family ++ ", len ".toList ++
      percentD salen
    let str ← strcpy nul str 0 (snprintf sizeofStr text)
    return ⟨some 0, str⟩

/-- The string that is returned. -/
def shown (str : List Char) (sa : Sockaddr) (salen : ℤ) : Option (List Char) :=
  (sockNtop ntop str sa salen).bind fun r => r.ptr.map (strAt nul r.str)

end Function

/-! ### Internet addresses -/

/-- The addresses of the two Internet families. -/
inductive Internet where
  | v4 (addr : UInt32) (port : UInt16)
  | v6 (addr : BitVec 128) (port : UInt16)
  deriving DecidableEq, Repr

namespace Internet

def toSockaddr : Internet → Sockaddr
  | v4 addr port => .inet addr port
  | v6 addr port => .inet6 addr port

def port : Internet → UInt16
  | v4 _ port => port
  | v6 _ port => port

/-- What is written into `portstr`. -/
def portText : Internet → List Char
  | v4 _ port => ':' :: decimal port.toNat
  | v6 _ port => ']' :: ':' :: decimal port.toNat

/-- The text of an Internet address. -/
def text (ntop : InetNtop) : Internet → List Char
  | v4 addr port => if port ≠ 0 then ntop.v4 addr ++ ':' :: decimal port.toNat else ntop.v4 addr
  | v6 addr port =>
    if port ≠ 0 then '[' :: (ntop.v6 addr ++ ']' :: ':' :: decimal port.toNat) else ntop.v6 addr

end Internet

section Texts

variable (ntop : InetNtop) {c : Char} {a b : Internet}

theorem notMem_v4 (hc : ¬ IsV4Char c) (addr : UInt32) : c ∉ ntop.v4 addr :=
  fun hmem => hc (ntop.v4_chars addr c hmem)

theorem notMem_v6 (hc : ¬ IsV6Char c) (addr : BitVec 128) : c ∉ ntop.v6 addr :=
  fun hmem => hc (ntop.v6_chars addr c hmem)

theorem notMem_decimal (hc : NoDigit 10 c) (n : ℕ) : c ∉ decimal n :=
  notMem_toDigits (by decide) hc n

theorem length_decimal_port (port : UInt16) : (decimal port.toNat).length ≤ 5 := by
  refine (Nat.length_toDigits_le_iff (by decide) (by decide)).mpr ?_
  have := port.toNat_lt
  omega

theorem decimal_port_injective {p q : UInt16} (h : decimal p.toNat = decimal q.toNat) : p = q :=
  UInt16.toNat_inj.mp (toDigits_injective (by decide) (by decide) _ _ h)

/-- The text of the port is not cut. -/
theorem length_portText (a : Internet) : a.portText.length + 1 ≤ sizeofPortstr := by
  cases a with
  | v4 addr port =>
    have := length_decimal_port port
    simp only [Internet.portText, List.length_cons, sizeofPortstr]
    omega
  | v6 addr port =>
    have := length_decimal_port port
    simp only [Internet.portText, List.length_cons, sizeofPortstr]
    omega

/-- The longest text has brackets around 45 characters, and a port of five digits. -/
theorem length_text (a : Internet) : (a.text ntop).length ≤ 53 := by
  cases a with
  | v4 addr port =>
    have haddr := ntop.v4_length addr
    have hport := length_decimal_port port
    simp only [Internet.text]
    split
    · rw [List.length_append, List.length_cons]
      omega
    · omega
  | v6 addr port =>
    have haddr := ntop.v6_length addr
    have hport := length_decimal_port port
    simp only [Internet.text]
    split
    · rw [List.length_cons, List.length_append, List.length_cons, List.length_cons]
      omega
    · omega

theorem nul_notMem_text (a : Internet) : nul ∉ a.text ntop := by
  cases a with
  | v4 addr port =>
    have haddr := notMem_v4 ntop (c := nul) (by decide) addr
    have hport := notMem_decimal (c := nul) (by decide) port.toNat
    simp only [Internet.text]
    split
    · simp only [List.mem_append, List.mem_cons, not_or]
      exact ⟨haddr, by decide, hport⟩
    · exact haddr
  | v6 addr port =>
    have haddr := notMem_v6 ntop (c := nul) (by decide) addr
    have hport := notMem_decimal (c := nul) (by decide) port.toNat
    simp only [Internet.text]
    split
    · simp only [List.mem_append, List.mem_cons, not_or]
      exact ⟨by decide, haddr, by decide, by decide, hport⟩
    · exact haddr

/-! ### The text is unambiguous -/

/-- The family is known from the number of colons. -/
theorem count_colon_v4 (addr : UInt32) (port : UInt16) :
    ((Internet.v4 addr port).text ntop).count ':' = if port ≠ 0 then 1 else 0 := by
  have haddr := List.count_eq_zero.mpr (notMem_v4 ntop (c := ':') (by decide) addr)
  have hport := List.count_eq_zero.mpr (notMem_decimal (c := ':') (by decide) port.toNat)
  simp only [Internet.text]
  split
  · rw [List.count_append, List.count_cons_self, haddr, hport]
  · exact haddr

theorem count_colon_v6 (addr : BitVec 128) (port : UInt16) :
    2 ≤ ((Internet.v6 addr port).text ntop).count ':' := by
  have haddr := ntop.v6_colons addr
  simp only [Internet.text]
  split
  · rw [List.count_cons, List.count_append]
    omega
  · exact haddr

/-- There is a bracket in the text of an IPv6 address exactly if there is a port. -/
theorem bracket_mem_v6 (addr : BitVec 128) (port : UInt16) :
    '[' ∈ (Internet.v6 addr port).text ntop ↔ port ≠ 0 := by
  simp only [Internet.text]
  split
  · next hport => exact iff_of_true List.mem_cons_self hport
  · next hport => exact iff_of_false (notMem_v6 ntop (by decide) addr) hport

theorem text_injective_v4 {addr addr' : UInt32} {port port' : UInt16}
    (h : (Internet.v4 addr port).text ntop = (Internet.v4 addr' port').text ntop) :
    addr = addr' ∧ port = port' := by
  have hcolon := count_colon_v4 ntop addr port
  rw [h, count_colon_v4] at hcolon
  simp only [Internet.text] at h
  by_cases hport : port = 0
  · have hport' : port' = 0 := by
      by_contra hne
      simp [hport, hne] at hcolon
    rw [if_neg (not_not.mpr hport), if_neg (not_not.mpr hport')] at h
    exact ⟨ntop.v4_injective _ _ h, hport.trans hport'.symm⟩
  · have hport' : port' ≠ 0 := by
      rintro rfl
      simp [hport] at hcolon
    rw [if_pos hport, if_pos hport'] at h
    -- there is one colon, behind the address
    obtain ⟨haddr, -, hdec⟩ := (List.append_cons_inj_of_notMem
      (notMem_v4 ntop (by decide) addr) (notMem_decimal (by decide) port.toNat)).mp h
    exact ⟨ntop.v4_injective _ _ haddr, decimal_port_injective hdec⟩

theorem text_injective_v6 {addr addr' : BitVec 128} {port port' : UInt16}
    (h : (Internet.v6 addr port).text ntop = (Internet.v6 addr' port').text ntop) :
    addr = addr' ∧ port = port' := by
  have hbracket := bracket_mem_v6 ntop addr port
  rw [h, bracket_mem_v6] at hbracket
  simp only [Internet.text] at h
  by_cases hport : port = 0
  · have hport' : port' = 0 := not_not.mp (mt hbracket.mp (not_not.mpr hport))
    rw [if_neg (not_not.mpr hport), if_neg (not_not.mpr hport')] at h
    exact ⟨ntop.v6_injective _ _ h, hport.trans hport'.symm⟩
  · rw [if_pos hport, if_pos (hbracket.mpr hport)] at h
    have hrest : ']' ∉ ':' :: decimal port.toNat :=
      List.not_mem_cons_of_ne_of_not_mem (by decide) (notMem_decimal (by decide) port.toNat)
    obtain ⟨haddr, -, hdec⟩ := (List.append_cons_inj_of_notMem
      (notMem_v6 ntop (by decide) addr) hrest).mp (List.cons.inj h).2
    exact ⟨ntop.v6_injective _ _ haddr, decimal_port_injective (List.cons.inj hdec).2⟩

/-- **The text of an Internet address is unambiguous.** -/
theorem text_injective (h : a.text ntop = b.text ntop) : a = b := by
  cases a with
  | v4 addr port =>
    cases b with
    | v4 addr' port' =>
      obtain ⟨rfl, rfl⟩ := text_injective_v4 ntop h
      rfl
    | v6 addr' port' =>
      have hlt := count_colon_v4 ntop addr port
      have hge := count_colon_v6 ntop addr' port'
      rw [← h, hlt] at hge
      split at hge <;> omega
  | v6 addr port =>
    cases b with
    | v4 addr' port' =>
      have hlt := count_colon_v4 ntop addr' port'
      have hge := count_colon_v6 ntop addr port
      rw [h, hlt] at hge
      split at hge <;> omega
    | v6 addr' port' =>
      obtain ⟨rfl, rfl⟩ := text_injective_v6 ntop h
      rfl

end Texts

/-! ### What is in the buffer -/

section Buffers

variable (ntop : InetNtop) (str : Str) (salen : ℤ)

/-- `snprintf` into the whole buffer. -/
theorem strcpy_snprintf (text : List Char) :
    ∃ buf, strcpy nul str.chars 0 (snprintf sizeofStr text) = some buf ∧
      buf.length = sizeofStr := by
  have hfits : (snprintf sizeofStr text).length + 1 ≤ str.chars.length := by
    rw [str.length_eq, snprintf, List.length_take, sizeofStr]
    omega
  obtain ⟨rest, hcpy, hlen⟩ := strcpy_append (t := []) nul (by simpa using hfits)
  exact ⟨_, hcpy, hlen.trans str.length_eq⟩

theorem snprintf_portText (a : Internet) : snprintf sizeofPortstr a.portText = a.portText := by
  have := length_portText a
  exact List.take_of_length_le (by omega)

/-- The text of `inet_ntop` behind what is at the start of the buffer. -/
theorem strcpy_inetNtop {pre buf s : List Char} (hbuf : buf.length = sizeofStr)
    (hpre : pre <+: buf) (hs : pre.length + s.length < sizeofStr) :
    ∃ rest, strcpy nul buf pre.length s = some (pre ++ (s ++ nul :: rest)) ∧
      (pre ++ (s ++ nul :: rest)).length = sizeofStr := by
  obtain ⟨tail, rfl⟩ := hpre
  have hfits : pre.length + (s.length + 1) ≤ (pre ++ tail).length := by
    rw [hbuf]
    omega
  obtain ⟨rest, hcpy, hlen⟩ := strcpy_append nul hfits
  exact ⟨rest, hcpy, hlen.trans hbuf⟩

/-- The port behind the text that is in the buffer. -/
theorem strcat_portText {s rest : List Char} (a : Internet) (hs : nul ∉ s)
    (hbuf : (s ++ nul :: rest).length = sizeofStr)
    (hfits : s.length + sizeofPortstr ≤ sizeofStr) :
    ∃ rest', strcat nul (s ++ nul :: rest) (snprintf sizeofPortstr a.portText) =
        some ((s ++ a.portText) ++ nul :: rest') ∧
      ((s ++ a.portText) ++ nul :: rest').length = sizeofStr := by
  have hport := length_portText a
  rw [snprintf_portText]
  obtain ⟨rest', hcat, hlen⟩ := strcat_append (s := a.portText) hs (by rw [hbuf]; omega)
  exact ⟨rest', hcat, hlen.trans hbuf⟩

/-- An Internet address: its text is in the buffer, at the position that is returned. -/
def Shows (ntop : InetNtop) (r : Option Ret) (a : Internet) : Prop :=
  ∃ i buf rest, r = some ⟨some i, buf⟩ ∧ buf.length = sizeofStr ∧
    buf.drop i = a.text ntop ++ nul :: rest

theorem sockNtop_inet (addr : UInt32) (port : UInt16) :
    Shows ntop (sockNtop ntop str.chars (.inet addr port) salen) (.v4 addr port) := by
  have haddr := ntop.v4_length addr
  have hfits : ¬ sizeofStr < (ntop.v4 addr).length + 1 := by rw [sizeofStr]; omega
  obtain ⟨rest, hcpy, hlen⟩ := strcpy_inetNtop (s := ntop.v4 addr) str.length_eq
    List.nil_prefix (by rw [sizeofStr, List.length_nil]; omega)
  simp only [List.nil_append, List.length_nil] at hcpy hlen
  by_cases hport : port = 0
  · refine ⟨0, ntop.v4 addr ++ nul :: rest, rest, ?_, hlen, ?_⟩
    · simp [sockNtop, hfits, hcpy, hport]
    · simp [Internet.text, hport]
  · obtain ⟨rest', hcat, hlen'⟩ := strcat_portText (.v4 addr port)
      (notMem_v4 ntop (by decide) addr) hlen (by rw [sizeofStr, sizeofPortstr]; omega)
    refine ⟨0, _, rest', ?_, hlen', ?_⟩
    · simp only [Internet.portText] at hcat
      simp [sockNtop, hfits, hcpy, hport, hcat, Internet.portText]
    · simp [Internet.text, hport, Internet.portText]

theorem sockNtop_inet6 (addr : BitVec 128) (port : UInt16) :
    Shows ntop (sockNtop ntop str.chars (.inet6 addr port) salen) (.v6 addr port) := by
  have haddr := ntop.v6_length addr
  have hfits : ¬ sizeofStr - 1 < (ntop.v6 addr).length + 1 := by rw [sizeofStr]; omega
  have hbracket : (writeAt str.chars 0 ['[']).length = sizeofStr := by
    rw [length_writeAt (by rw [str.length_eq]; decide), str.length_eq]
  have hfront : ['['] <+: writeAt str.chars 0 ['['] := ⟨_, rfl⟩
  obtain ⟨rest, hcpy, hlen⟩ := strcpy_inetNtop (s := ntop.v6 addr) hbracket hfront
    (by rw [sizeofStr, List.length_singleton]; omega)
  rw [List.length_singleton] at hcpy
  by_cases hport : port = 0
  · refine ⟨1, ['['] ++ (ntop.v6 addr ++ nul :: rest), rest, ?_, hlen, ?_⟩
    · simp [sockNtop, hfits, hcpy, hport]
    · simp [Internet.text, hport]
  · have hnul : nul ∉ '[' :: ntop.v6 addr :=
      List.not_mem_cons_of_ne_of_not_mem (by decide) (notMem_v6 ntop (by decide) addr)
    obtain ⟨rest', hcat, hlen'⟩ := strcat_portText (.v6 addr port) hnul hlen
      (by rw [sizeofStr, sizeofPortstr, List.length_cons]; omega)
    refine ⟨0, _, rest', ?_, hlen', ?_⟩
    · simp only [Internet.portText, List.cons_append] at hcat
      simp [sockNtop, hfits, hcpy, hport, hcat, Internet.portText]
    · simp [Internet.text, hport, Internet.portText]

theorem sockNtop_internet (a : Internet) :
    Shows ntop (sockNtop ntop str.chars a.toSockaddr salen) a := by
  cases a with
  | v4 addr port => exact sockNtop_inet ntop str salen addr port
  | v6 addr port => exact sockNtop_inet6 ntop str salen addr port

/-- **Nothing is written behind the buffer**, whatever the address. -/
theorem sockNtop_returns (sa : Sockaddr) :
    ∃ r, sockNtop ntop str.chars sa salen = some r ∧ r.str.length = sizeofStr := by
  cases sa with
  | inet addr port =>
    obtain ⟨i, buf, -, hret, hlen, -⟩ := sockNtop_inet ntop str salen addr port
    exact ⟨_, hret, hlen⟩
  | inet6 addr port =>
    obtain ⟨i, buf, -, hret, hlen, -⟩ := sockNtop_inet6 ntop str salen addr port
    exact ⟨_, hret, hlen⟩
  | unix path =>
    by_cases hpath : path = []
    · obtain ⟨rest, hcpy, hlen⟩ := strcpy_inetNtop (s := "(no pathname bound)".toList)
        str.length_eq List.nil_prefix (by decide)
      exact ⟨⟨some 0, _⟩, by rw [sockNtop, if_pos hpath, ← List.length_nil, hcpy]; rfl, hlen⟩
    · obtain ⟨buf, hcpy, hlen⟩ := strcpy_snprintf str path
      exact ⟨⟨some 0, buf⟩, by simp [sockNtop, hpath, hcpy], hlen⟩
  | link nlen data index =>
    obtain ⟨buf, hcpy, hlen⟩ := strcpy_snprintf str _
    exact ⟨⟨some 0, buf⟩, by rw [sockNtop, hcpy]; rfl, hlen⟩
  | other family =>
    obtain ⟨buf, hcpy, hlen⟩ := strcpy_snprintf str _
    exact ⟨⟨some 0, buf⟩, by rw [sockNtop, hcpy]; rfl, hlen⟩

/-- What is in the buffer for an Internet address. -/
theorem shown_eq_text (a : Internet) :
    shown ntop str.chars a.toSockaddr salen = some (a.text ntop) := by
  obtain ⟨i, buf, rest, hret, -, hdrop⟩ := sockNtop_internet ntop str salen a
  rw [shown, hret, Option.bind_some, Option.map_some, strAt_eq (nul_notMem_text ntop a) hdrop]

end Buffers

/-- **The text of an Internet address stands for that address only**: family, address and port.
The text fits the buffer, and the text of the port its own one. -/
theorem sockNtop_injective (ntop : InetNtop) (str str' : Str) (salen salen' : ℤ)
    (a b : Internet) :
    (∃ s, shown ntop str.chars a.toSockaddr salen = some s ∧ s.length + 1 ≤ sizeofStr) ∧
      a.portText.length + 1 ≤ sizeofPortstr ∧
      (shown ntop str.chars a.toSockaddr salen = shown ntop str'.chars b.toSockaddr salen' ↔
        a = b) := by
  refine ⟨⟨a.text ntop, shown_eq_text ntop str salen a, ?_⟩, length_portText a, ?_⟩
  · have := length_text ntop a
    rw [sizeofStr]
    omega
  · rw [shown_eq_text, shown_eq_text]
    constructor
    · intro h
      exact text_injective ntop (Option.some.inj h)
    · rintro rfl
      rfl

/-! ### Texts without abbreviations -/

section Plain

/-- The four numbers of an IPv4 address. -/
def bytes (addr : UInt32) : List ℕ :=
  [addr.toNat / 2 ^ 24, addr.toNat / 2 ^ 16 % 256, addr.toNat / 2 ^ 8 % 256, addr.toNat % 256]

/-- The eight numbers of an IPv6 address. -/
def groups (addr : BitVec 128) : List ℕ :=
  [addr.toNat / 2 ^ 112, addr.toNat / 2 ^ 96 % 65536, addr.toNat / 2 ^ 80 % 65536,
    addr.toNat / 2 ^ 64 % 65536, addr.toNat / 2 ^ 48 % 65536, addr.toNat / 2 ^ 32 % 65536,
    addr.toNat / 2 ^ 16 % 65536, addr.toNat % 65536]

theorem bytes_injective {a b : UInt32} (h : bytes a = bytes b) : a = b := by
  simp only [bytes, List.cons.injEq] at h
  exact UInt32.toNat_inj.mp (by omega)

theorem groups_injective {a b : BitVec 128} (h : groups a = groups b) : a = b := by
  simp only [groups, List.cons.injEq] at h
  exact BitVec.toNat_inj.mp (by omega)

theorem bytes_lt (addr : UInt32) : ∀ n ∈ bytes addr, n < 10 ^ 3 := by
  have := addr.toNat_lt
  simp only [bytes, List.forall_mem_cons]
  exact ⟨by omega, by omega, by omega, by omega, by simp⟩

theorem groups_lt (addr : BitVec 128) : ∀ n ∈ groups addr, n < 16 ^ 4 := by
  have := addr.isLt
  simp only [groups, List.forall_mem_cons]
  exact ⟨by omega, by omega, by omega, by omega, by omega, by omega, by omega, by omega, by simp⟩

theorem isV4Char_digitChar : ∀ d < 10, IsV4Char (Nat.digitChar d) := by
  decide

theorem isV6Char_digitChar : ∀ d < 16, IsV6Char (Nat.digitChar d) := by
  decide

/-- Texts that are as assumed: all the numbers are written out. -/
def plain : InetNtop where
  v4 addr := joined '.' 10 (bytes addr)
  v6 addr := joined ':' 16 (groups addr)
  v4_injective _ _ h := bytes_injective <|
    joined_injective (by decide) (by decide) (by decide) (List.cons_ne_nil _ _)
      (List.cons_ne_nil _ _) h
  v4_chars _ _ hc := by
    rcases mem_joined (by decide) _ hc with rfl | ⟨d, hd, rfl⟩
    · decide
    · exact isV4Char_digitChar d hd
  v4_length addr := length_joined_le (by decide) (by decide) _ (bytes_lt addr)
  v6_injective _ _ h := groups_injective <|
    joined_injective (by decide) (by decide) (by decide) (List.cons_ne_nil _ _)
      (List.cons_ne_nil _ _) h
  v6_chars _ _ hc := by
    rcases mem_joined (by decide) _ hc with rfl | ⟨d, hd, rfl⟩
    · decide
    · exact isV6Char_digitChar d hd
  v6_length addr := by
    have := length_joined_le (c := ':') (by decide) (by decide) _ (groups_lt addr)
    have height : (groups addr).length = 8 := rfl
    omega
  v6_colons addr := by
    have hcount := count_joined (c := ':') (b := 16) (by decide) (by decide) (groups addr)
      (List.cons_ne_nil _ _)
    have height : (groups addr).length = 8 := rfl
    omega

example : (Internet.v4 0x7f000001 80).text plain = "127.0.0.1:80".toList := by decide

example : (Internet.v6 1 80).text plain = "[0:0:0:0:0:0:0:1]:80".toList := by decide

end Plain

end TcpIp.Ntop
