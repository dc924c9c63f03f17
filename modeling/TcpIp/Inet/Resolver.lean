import TcpIp.Gai.RoundTrip
import TcpIp.Inet.RoundTrip

/-!
# The conversions in use

`getaddrinfo`, `getnameinfo` and `sock_ntop` are modelled over functions that turn an address into
text and back, of which little is assumed.  The functions of `libfree` are as assumed.

## Main definitions

* `Gai.Env.withInet` — the library over `inet_pton` and `inet_ntop` of `libfree`.
* `libfree` — what is known of `inet_ntop`, for the one of `libfree`.

## Main results

* `textual_withInet` — **the conversions of `libfree` are as assumed.**
* `sockNtop_inetPton` — **the host in what `sock_ntop` shows is read back as the address.**
-/

namespace TcpIp.Inet

open Bytes Text
open Ntop (nul)

/-! ### Addresses as numbers -/

/-- An IPv4 address in network byte order. -/
def Address.ofNat4 (n : ℕ) : Address := .v4 ⟨(Order.big.enc 4 n).toArray, by simp⟩

/-- An IPv6 address in network byte order. -/
def Address.ofNat6 (n : ℕ) : Address := .v6 ⟨(Order.big.enc 16 n).toArray, by simp⟩

theorem bytes_ofNat4 (n : ℕ) : (Address.ofNat4 n).bytes = Order.big.enc 4 n := rfl

theorem bytes_ofNat6 (n : ℕ) : (Address.ofNat6 n).bytes = Order.big.enc 16 n := rfl

section Conversions

variable (fr : Frame) (junk : Junk)

/-- The text that `inet_ntop` leaves in an array of `INET6_ADDRSTRLEN` characters. -/
def ntopText (a : Address) : List Char :=
  match inetNtop fr a.family a.bytes fr.tmp6 sizeofTmp6 with
  | some (.stored dst) => strAt nul dst 0
  | _ => []

/-- The number in the address that `inet_pton` stores. -/
def ptonNat (af : Family) (s : List Char) : Option ℕ :=
  match inetPton junk af s with
  | some (.valid addr) => some (Order.big.dec addr)
  | _ => none

theorem ntopText_eq (a : Address) : ntopText fr a = a.text := by
  have hlen := a.length_text
  have hsize := fr.length_tmp6
  obtain ⟨dst, hntop, -, htext⟩ := inetNtop_stored fr a fr.tmp6 sizeofTmp6
    (by rw [sizeofTmp6]; omega) (by omega)
  rw [ntopText, hntop]
  exact htext

theorem ptonNat_ntopText (a : Address) :
    ptonNat junk a.family (ntopText fr a) = some (Order.big.dec a.bytes) := by
  rw [ntopText_eq, ptonNat, inetPton_text]

theorem ptonNat_ntopText4 {n : ℕ} (h : n < 2 ^ 32) :
    ptonNat junk .inet (ntopText fr (.ofNat4 n)) = some n := by
  have hpton := ptonNat_ntopText fr junk (.ofNat4 n)
  rwa [bytes_ofNat4, Order.dec_enc, Nat.mod_eq_of_lt (by omega)] at hpton

theorem ptonNat_ntopText6 {n : ℕ} (h : n < 2 ^ 128) :
    ptonNat junk .inet6 (ntopText fr (.ofNat6 n)) = some n := by
  have hpton := ptonNat_ntopText fr junk (.ofNat6 n)
  rwa [bytes_ofNat6, Order.dec_enc, Nat.mod_eq_of_lt (by omega)] at hpton

end Conversions

/-! ### The characters of a text -/

section Chars

variable {c : Char} {src : List UInt8}

theorem mem_text4 (h : c ∈ text4 src) : c = '.' ∨ ∃ d < 10, c = Nat.digitChar d :=
  mem_joined (by decide) _ h

theorem mem_text6 (h : c ∈ text6 src) : c = ':' ∨ c = '.' ∨ ∃ d < 16, c = Nat.digitChar d := by
  have hjoined : ∀ ws, c ∈ joined ':' 16 ws →
      c = ':' ∨ c = '.' ∨ ∃ d < 16, c = Nat.digitChar d := by
    intro ws hc
    rcases mem_joined (by decide) ws hc with rfl | hdigit
    · exact .inl rfl
    · exact .inr (.inr hdigit)
  rw [text6] at h
  split at h
  · exact hjoined _ h
  · simp only [backText, List.mem_append, List.mem_cons] at h
    rcases h with h | h | h | h
    · exact hjoined _ h
    · exact .inl h
    · exact .inl h
    · split at h
      · rcases List.mem_append.mp h with h | h
        · split at h
          · cases h
          · simp only [List.mem_cons, List.not_mem_nil, or_false, or_self_left] at h
            rcases h with rfl | rfl
            · exact .inr (.inr ⟨15, by decide, by decide⟩)
            · exact .inl rfl
        · rcases mem_text4 h with rfl | ⟨d, hd, rfl⟩
          · exact .inr (.inl rfl)
          · exact .inr (.inr ⟨d, by omega, rfl⟩)
      · exact hjoined _ h

/-- The first character of some numbers is a digit. -/
theorem head_joined {x : Char} {b : ℕ} {ns : List ℕ} {t : List Char} (hb : 1 < b)
    (h : joined c b ns = x :: t) : ∃ d < b, x = Nat.digitChar d := by
  cases ns with
  | nil => cases h
  | cons n ns =>
    rw [joined_cons] at h
    obtain ⟨y, ys, hy⟩ := List.exists_cons_of_ne_nil (Nat.toDigits_ne_nil (b := b) (n := n))
    rw [hy] at h
    obtain ⟨rfl, -⟩ := List.cons.inj h
    exact exists_digit_of_mem hb n (hy ▸ List.mem_cons_self)

theorem text4_ne_nil (src : List UInt8) : text4 src ≠ [] := by
  rw [text4, joined_cons]
  exact List.append_ne_nil_of_left_ne_nil Nat.toDigits_ne_nil _

theorem isDigit_digitChar : ∀ d < 10, (Nat.digitChar d).isDigit = true := by
  decide

theorem isXDigit_digitChar : ∀ d < 16, Gai.isXDigit (Nat.digitChar d) = true := by
  decide

theorem head_text6 {t : List Char} (h : text6 src = c :: t) :
    c = ':' ∨ ∃ d < 16, c = Nat.digitChar d := by
  rw [text6] at h
  split at h
  · exact .inr (head_joined (by decide) h)
  · next r _ =>
    cases hfront : joined ':' 16 ((words src).take r.base) with
    | nil =>
      rw [hfront] at h
      exact .inl (List.cons.inj h).1.symm
    | cons x front =>
      rw [hfront] at h
      obtain ⟨rfl, -⟩ := List.cons.inj h
      exact .inr (head_joined (by decide) hfront)

theorem count_colon_text6 (src : List UInt8) : 2 ≤ (text6 src).count ':' := by
  have hwords := length_words src
  rw [text6]
  split
  · have hcount := count_joined (b := 16) (c := ':') (by decide) (by decide) (words src)
      (List.ne_nil_of_length_pos (by omega))
    omega
  · rw [List.count_append, List.count_cons_self, List.count_cons_self]
    omega

end Chars

/-! ### `getaddrinfo` and `getnameinfo` -/

/-- The library over `inet_pton` and `inet_ntop` of `libfree`. -/
def withInet (env : Gai.Env) (fr : Frame) (junk : Junk) : Gai.Env :=
  { env with
    inetPton4 := fun s => (ptonNat junk .inet s).map (.ofNat 32)
    inetPton6 := fun s => (ptonNat junk .inet6 s).map (.ofNat 128)
    inetNtop4 := fun a => ntopText fr (.ofNat4 a.toNat)
    inetNtop6 := fun a => ntopText fr (.ofNat6 a.toNat) }

/-- **The conversions of `libfree` are as assumed.** -/
theorem textual_withInet (env : Gai.Env) (fr : Frame) (junk : Junk) :
    Gai.Textual (withInet env fr junk) where
  pton_ntop4 a := by
    simp only [withInet, ptonNat_ntopText4 fr junk a.isLt, Option.map_some, BitVec.ofNat_toNat,
      BitVec.setWidth_eq]
  pton_ntop6 a := by
    simp only [withInet, ptonNat_ntopText6 fr junk a.isLt, Option.map_some, BitVec.ofNat_toNat,
      BitVec.setWidth_eq]
  digit a := by
    obtain ⟨c, t, htext⟩ := List.exists_cons_of_ne_nil (text4_ne_nil (Address.ofNat4 a.toNat).bytes)
    obtain ⟨d, hd, rfl⟩ := head_joined (by decide) htext
    have hstart : (Address.ofNat4 a.toNat).text = Nat.digitChar d :: t := htext
    simp only [withInet, ntopText_eq, hstart]
    exact isDigit_digitChar d hd
  colon a := by
    have hcount := count_colon_text6 (Address.ofNat6 a.toNat).bytes
    refine List.count_pos_iff.mp (Nat.lt_of_lt_of_le (by decide : 0 < 2) ?_)
    simp only [withInet, ntopText_eq]
    exact hcount
  hex a c t h := by
    simp only [withInet, ntopText_eq] at h
    rcases head_text6 h with rfl | ⟨d, hd, rfl⟩
    · exact .inr rfl
    · exact .inl (isXDigit_digitChar d hd)
  reject s hs := by
    simp only [withInet, ptonNat, inetPton, inetPton4_eq,
      quad_eq_none_of_mem (by decide) (by decide) hs]
    rfl

/-! ### `sock_ntop` -/

/-- What is known of `inet_ntop`, for the one of `libfree`. -/
def libfree (fr : Frame) : Ntop.InetNtop where
  v4 addr := ntopText fr (.ofNat4 addr.toNat)
  v6 addr := ntopText fr (.ofNat6 addr.toNat)
  v4_injective a b h := by
    have hpton := congrArg (ptonNat .blank .inet) h
    rw [ptonNat_ntopText4 fr .blank a.toNat_lt, ptonNat_ntopText4 fr .blank b.toNat_lt] at hpton
    exact UInt32.toNat_inj.mp (Option.some.inj hpton)
  v4_chars a c hc := by
    rw [ntopText_eq] at hc
    rcases mem_text4 hc with rfl | ⟨d, hd, rfl⟩
    · exact .inr rfl
    · exact .inl (isDigit_digitChar d hd)
  v4_length a := by
    rw [ntopText_eq]
    exact length_text4 _
  v6_injective a b h := by
    have hpton := congrArg (ptonNat .blank .inet6) h
    rw [ptonNat_ntopText6 fr .blank a.isLt, ptonNat_ntopText6 fr .blank b.isLt] at hpton
    exact BitVec.toNat_inj.mp (Option.some.inj hpton)
  v6_chars a c hc := by
    rw [ntopText_eq] at hc
    rcases mem_text6 hc with rfl | rfl | ⟨d, hd, rfl⟩
    · decide
    · decide
    · exact Ntop.isV6Char_digitChar d hd
  v6_length a := by
    rw [ntopText_eq]
    exact Nat.le_trans (length_text6 _) (by decide)
  v6_colons a := by
    rw [ntopText_eq]
    exact count_colon_text6 _

/-- The host in what `sock_ntop` shows: what is in brackets, or what is in front of the only
colon. -/
def hostOf : List Char → List Char
  | '[' :: s => s.takeWhile (· ≠ ']')
  | s => if s.count ':' < 2 then s.takeWhile (· ≠ ':') else s

/-- The family of an Internet address, and the address. -/
def internet : Ntop.Internet → Family × ℕ
  | .v4 addr _ => (.inet, addr.toNat)
  | .v6 addr _ => (.inet6, addr.toNat)

section SockNtop

variable {c : Char} {s t : List Char}

theorem takeWhile_append_cons (hc : c ∉ s) : (s ++ c :: t).takeWhile (· ≠ c) = s :=
  strAt_eq (i := 0) hc List.drop_zero

theorem takeWhile_of_notMem (hc : c ∉ s) : s.takeWhile (· ≠ c) = s := by
  refine List.takeWhile_eq_self_iff.mpr fun x hx => decide_eq_true ?_
  rintro rfl
  exact hc hx

theorem hostOf_of_head (h : s.head? ≠ some '[') :
    hostOf s = if s.count ':' < 2 then s.takeWhile (· ≠ ':') else s := by
  rw [hostOf.eq_def]
  split
  · exact absurd rfl h
  · rfl

/-- The host is cut out of the text. -/
theorem hostOf_text (ntop : Ntop.InetNtop) (a : Ntop.Internet) :
    hostOf (a.text ntop) = match a with
      | .v4 addr _ => ntop.v4 addr
      | .v6 addr _ => ntop.v6 addr := by
  have hhead : ∀ {s t : List Char}, '[' ∉ s → t.head? ≠ some '[' → (s ++ t).head? ≠ some '[' := by
    intro s t hs ht
    cases s with
    | nil => exact ht
    | cons x s =>
      rintro h
      exact hs (Option.some.inj h ▸ List.mem_cons_self)
  cases a with
  | v4 addr port =>
    have hbracket : '[' ∉ ntop.v4 addr := Ntop.notMem_v4 ntop (by decide) addr
    have hcolon : ':' ∉ ntop.v4 addr := Ntop.notMem_v4 ntop (by decide) addr
    have hzero := List.count_eq_zero.mpr hcolon
    simp only [Ntop.Internet.text]
    split
    · have hport : (Ntop.decimal port.toNat).count ':' = 0 :=
        List.count_eq_zero.mpr (Ntop.notMem_decimal (by decide) _)
      rw [hostOf_of_head (hhead hbracket (by simp)), if_pos, takeWhile_append_cons hcolon]
      rw [List.count_append, List.count_cons_self, hzero, hport]
      decide
    · have h := hhead (t := []) hbracket (by simp)
      rw [List.append_nil] at h
      rw [hostOf_of_head h, if_pos (by omega), takeWhile_of_notMem hcolon]
  | v6 addr port =>
    have hbracket : '[' ∉ ntop.v6 addr := Ntop.notMem_v6 ntop (by decide) addr
    have hclose : ']' ∉ ntop.v6 addr := Ntop.notMem_v6 ntop (by decide) addr
    have hcolons := ntop.v6_colons addr
    simp only [Ntop.Internet.text]
    split
    · rw [hostOf, takeWhile_append_cons hclose]
    · have h := hhead (t := []) hbracket (by simp)
      rw [List.append_nil] at h
      rw [hostOf_of_head h, if_neg (by omega)]

/-- **The host in what `sock_ntop` shows is read back as the address.** -/
theorem sockNtop_inetPton (fr : Frame) (junk : Junk) (str : Ntop.Str) (salen : ℤ)
    (a : Ntop.Internet) : ∃ s, Ntop.shown (libfree fr) str.chars a.toSockaddr salen = some s ∧
      ptonNat junk (internet a).1 (hostOf s) = some (internet a).2 := by
  refine ⟨_, Ntop.shown_eq_text (libfree fr) str salen a, ?_⟩
  rw [hostOf_text]
  cases a with
  | v4 addr port => exact ptonNat_ntopText4 fr junk addr.toNat_lt
  | v6 addr port => exact ptonNat_ntopText6 fr junk addr.isLt

end SockNtop

end TcpIp.Inet
