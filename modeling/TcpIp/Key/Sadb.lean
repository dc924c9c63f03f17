import TcpIp.Gai.Basic
import TcpIp.Lib.Buffer
import TcpIp.Lib.Bytes
import TcpIp.Lib.Frames

/-!
# Messages of the key management socket

`sadb_add` builds a message that adds a static security association: a header and four
extensions, each of which starts with its length in units of eight bytes.  `print_sadb_msg`
goes through the extensions of a message by these lengths and prints what they hold.

A number is kept in the byte order `o` of the machine.  An argument of type `int` is its
32 bits.  The socket address structures are those without a length member, so that the
length of one follows from its family.  What is printed is recorded as the values that are
handed to `printf`; the texts for them are left out.

## Main definitions

* `sadbAdd` — the message that `sadb_add` builds, and its length.
* `printSadbMsg` — `print_sadb_msg`.

## Main results

* `print_sadbAdd` — **the message is read back**: the four extensions are visited in their
  order, the length is used up exactly, and the values are those put in.
-/

namespace TcpIp.Key

open Buffer Bytes Frames
open Gai (afInet afInet6)

/-! ### Constants -/

def pfKeyV2 : ℕ := 2
def sadbTypeAdd : ℕ := 3
def sadbSastateMature : ℕ := 1
def sadbEalgNone : ℕ := 0

def sadbExtReserved : ℕ := 0
def sadbExtSa : ℕ := 1
def sadbExtLifetimeCurrent : ℕ := 2
def sadbExtLifetimeHard : ℕ := 3
def sadbExtLifetimeSoft : ℕ := 4
def sadbExtAddressSrc : ℕ := 5
def sadbExtAddressDst : ℕ := 6
def sadbExtAddressProxy : ℕ := 7
def sadbExtKeyAuth : ℕ := 8
def sadbExtKeyEncrypt : ℕ := 9
def sadbExtIdentitySrc : ℕ := 10
def sadbExtIdentityDst : ℕ := 11
def sadbExtSensitivity : ℕ := 12
def sadbExtProposal : ℕ := 13
def sadbExtSupportedAuth : ℕ := 14
def sadbExtSupportedEncrypt : ℕ := 15
def sadbExtSpirange : ℕ := 16

/-! ### The structures of `<net/pfkeyv2.h>` -/

variable (o : Order)

/-- `struct sadb_msg`, of 16 bytes. -/
def sadbMsg (version type errno satype len seq pid : ℕ) : List UInt8 :=
  o.enc 1 version ++ (o.enc 1 type ++ (o.enc 1 errno ++ (o.enc 1 satype ++
    (o.enc 2 len ++ (o.enc 2 0 ++ (o.enc 4 seq ++ o.enc 4 pid))))))

/-- `struct sadb_sa`, of 16 bytes. -/
def sadbSa (len exttype spi replay state auth encrypt flags : ℕ) : List UInt8 :=
  o.enc 2 len ++ (o.enc 2 exttype ++ (o.enc 4 spi ++ (o.enc 1 replay ++ (o.enc 1 state ++
    (o.enc 1 auth ++ (o.enc 1 encrypt ++ o.enc 4 flags))))))

/-- `struct sadb_address`, of 8 bytes. -/
def sadbAddress (len exttype proto prefixlen : ℕ) : List UInt8 :=
  o.enc 2 len ++ (o.enc 2 exttype ++ (o.enc 1 proto ++ (o.enc 1 prefixlen ++ o.enc 2 0)))

/-- `struct sadb_key`, of 8 bytes. -/
def sadbKey (len exttype bits : ℕ) : List UInt8 :=
  o.enc 2 len ++ (o.enc 2 exttype ++ (o.enc 2 bits ++ o.enc 2 0))

/-- `htonl`: the number whose bytes in memory are in network byte order. -/
def htonl (n : ℕ) : ℕ := o.dec (Order.big.enc 4 n)

/-! ### Building a message -/

/-- `sa_family`. -/
def saFamily (sa : List UInt8) : ℤ := get o sa 0 2

def salen (sa : List UInt8) : ℕ :=
  if saFamily o sa = afInet then 16 else if saFamily o sa = afInet6 then 28 else 0

def prefixAll (sa : List UInt8) : ℕ :=
  if saFamily o sa = afInet then 32 else if saFamily o sa = afInet6 then 128 else 0

/-- The message so far: the buffer, and `p`, which is also `len`. -/
structure Build where
  buf : List UInt8
  p : ℕ

/-- The buffer after `bzero`. -/
def Build.start : Build := ⟨List.replicate 4096 0, 0⟩

/-- The members of a structure of `size` bytes are stored at `p`. -/
def Build.put (b : Build) (members : List UInt8) (size : ℕ) : Build :=
  ⟨writeAt b.buf b.p members, b.p + size⟩

/-- One of the two address extensions. -/
def Build.putAddress (b : Build) (exttype : ℕ) (sa : List UInt8) : Build :=
  -- the length is kept in 16 bits
  let addressLen := (8 + salen o sa + 7) / 8 % 65536
  let buf := writeAt b.buf b.p (sadbAddress o addressLen exttype 0 (prefixAll o sa))
  let buf := writeAt buf (b.p + 8) (sa.take (salen o sa))
  ⟨buf, b.p + addressLen * 8⟩

/-- The key extension. -/
def Build.putKey (b : Build) (keybits : ℕ) (keydata : List UInt8) : Build :=
  let keyLen := (8 + keybits / 8 + 7) / 8 % 65536
  let buf := writeAt b.buf b.p (sadbKey o keyLen sadbExtKeyAuth keybits)
  let buf := writeAt buf (b.p + 8) (keydata.take (keybits / 8))
  ⟨buf, b.p + keyLen * 8⟩

/-- `sadb_add` up to its call of `print_sadb_msg`. -/
def sadbAdd (src dst : List UInt8) (type alg spi : UInt32) (keybits : ℕ) (keydata : List UInt8)
    (pid : UInt32) : Build :=
  let b := Build.start.put (sadbMsg o pfKeyV2 sadbTypeAdd 0 type.toNat 0 0 pid.toNat) 16
  let saLen := 16 / 8
  let b := b.put
    (sadbSa o saLen sadbExtSa (htonl o spi.toNat) 0 sadbSastateMature alg.toNat sadbEalgNone 0)
    (saLen * 8)
  let b := b.putAddress o sadbExtAddressSrc src
  let b := b.putAddress o sadbExtAddressDst dst
  let b := b.putKey o keybits keydata
  ⟨writeAt b.buf 4 (o.enc 2 (b.p / 8)), b.p⟩

/-! ### Printing a message -/

/-- `struct sadb_alg`. -/
structure Alg where
  id : ℕ
  ivlen : ℕ
  minbits : ℕ
  maxbits : ℕ
  deriving DecidableEq, Repr

/-- What is printed of one extension. -/
inductive Visit where
  | reserved
  | sa (spi replay state auth encrypt flags : ℕ)
  | lifetime (exttype allocations bytes addtime usetime : ℕ)
  | address (exttype : ℕ) (sa : List UInt8) (prefixlen proto : ℕ)
  | key (exttype bits : ℕ) (bytes : List UInt8)
  | identity
  | sensitivity
  | proposal
  | supported (exttype : ℕ) (algs : List Alg)
  | spirange
  | unknown (exttype : ℕ)
  deriving DecidableEq, Repr

/-- `sa_print`. -/
def saPrint (mem : List UInt8) (ext : ℕ) : Visit :=
  .sa (get o mem (ext + 4) 4) (get o mem (ext + 8) 1) (get o mem (ext + 9) 1)
    (get o mem (ext + 10) 1) (get o mem (ext + 11) 1) (get o mem (ext + 12) 4)

/-- `lifetime_print`. -/
def lifetimePrint (mem : List UInt8) (ext : ℕ) : Visit :=
  .lifetime (get o mem (ext + 2) 2) (get o mem (ext + 4) 4) (get o mem (ext + 8) 8)
    (get o mem (ext + 16) 8) (get o mem (ext + 24) 8)

/-- `address_print`, with the structure that is handed to `sock_ntop`. -/
def addressPrint (mem : List UInt8) (ext : ℕ) : Visit :=
  .address (get o mem (ext + 2) 2) (slice mem (ext + 8) (get o mem ext 2 * 8 - 8))
    (get o mem (ext + 5) 1) (get o mem (ext + 4) 1)

/-- `key_print`: a byte is printed as long as there are bits left. -/
def keyPrint (mem : List UInt8) (ext : ℕ) : Visit :=
  let bits := get o mem (ext + 4) 2
  .key (get o mem (ext + 2) 2) bits (slice mem (ext + 8) ((bits + 7) / 8))

/-- `supported_print`. -/
def supportedPrint (mem : List UInt8) (ext : ℕ) : Visit :=
  .supported (get o mem (ext + 2) 2) ((List.range (get o mem ext 2 - 1)).map fun i =>
    let alg := ext + 8 + 8 * i
    ⟨get o mem alg 1, get o mem (alg + 1) 1, get o mem (alg + 2) 2, get o mem (alg + 4) 2⟩)

/-- The body of the loop of `print_sadb_msg`. -/
def extPrint (mem : List UInt8) (ext : ℕ) : Visit :=
  let exttype := get o mem (ext + 2) 2
  if exttype = sadbExtReserved then .reserved
  else if exttype = sadbExtSa then saPrint o mem ext
  else if exttype = sadbExtLifetimeCurrent ∨ exttype = sadbExtLifetimeHard ∨
      exttype = sadbExtLifetimeSoft then lifetimePrint o mem ext
  else if exttype = sadbExtAddressSrc ∨ exttype = sadbExtAddressDst ∨
      exttype = sadbExtAddressProxy then addressPrint o mem ext
  else if exttype = sadbExtKeyAuth ∨ exttype = sadbExtKeyEncrypt then keyPrint o mem ext
  else if exttype = sadbExtIdentitySrc ∨ exttype = sadbExtIdentityDst then .identity
  else if exttype = sadbExtSensitivity then .sensitivity
  else if exttype = sadbExtProposal then .proposal
  else if exttype = sadbExtSupportedAuth ∨ exttype = sadbExtSupportedEncrypt then
    supportedPrint o mem ext
  else if exttype = sadbExtSpirange then .spirange
  else .unknown exttype

/-- What is printed of the header. -/
structure Header where
  type : ℕ
  errno : ℕ
  satype : ℕ
  seq : ℕ
  pid : ℕ
  deriving DecidableEq, Repr

/-- How `print_sadb_msg` ends. -/
inductive Printed where
  | badLength
  | badVersion
  /-- The message has been printed; `left` is what is left of `msglen`. -/
  | msg (header : Header) (visits : List Visit) (left : ℤ)
  deriving DecidableEq, Repr

/-- `print_sadb_msg`.  The value is `none` if the loop does not end, which is so if an
extension of length zero is met. -/
def printSadbMsg (mem : List UInt8) (msglen : ℤ) : Option Printed :=
  if msglen ≠ get o mem 4 2 * 8 then some .badLength
  else if get o mem 0 1 ≠ pfKeyV2 then some .badVersion
  else
    let header : Header :=
      ⟨get o mem 1 1, get o mem 2 1, get o mem 3 1, get o mem 8 4, get o mem 12 4⟩
    if msglen = 16 then some (.msg header [] msglen)
    else
      match scan (fun ext => get o mem ext 2 * 8)
          (fun visits ext => (.ok (visits ++ [extPrint o mem ext]) : Except Empty _))
          msglen.toNat 16 (msglen - 16) [] with
      | some (.ok (visits, left)) => some (.msg header visits left)
      | _ => none

/-! ### The extensions of the message -/

/-- A socket address structure of one of the two families. -/
structure Sockaddr where
  bytes : List UInt8
  wf : saFamily o bytes = afInet ∧ bytes.length = 16 ∨
    saFamily o bytes = afInet6 ∧ bytes.length = 28

/-- The bytes that fill up `n` bytes to a multiple of eight. -/
def pad (n : ℕ) : List UInt8 := List.replicate ((8 - n % 8) % 8) 0

/-- The extension for an association. -/
def saExt (spi alg : ℕ) : List UInt8 :=
  sadbSa o 2 sadbExtSa (htonl o spi) 0 sadbSastateMature alg sadbEalgNone 0

/-- The extension for an address. -/
def addressExt (exttype : ℕ) (sa : List UInt8) : List UInt8 :=
  sadbAddress o ((8 + sa.length + 7) / 8) exttype 0 (prefixAll o sa) ++ (sa ++ pad sa.length)

/-- The extension for a key. -/
def keyExt (key : List UInt8) : List UInt8 :=
  sadbKey o ((8 + key.length + 7) / 8) sadbExtKeyAuth (8 * key.length) ++ (key ++ pad key.length)

variable {o}

theorem Sockaddr.salen_eq (sa : Sockaddr o) : salen o sa.bytes = sa.bytes.length := by
  rcases sa.wf with ⟨hfamily, hlen⟩ | ⟨hfamily, hlen⟩
  · rw [salen, if_pos hfamily, hlen]
  · have hne : ¬saFamily o sa.bytes = afInet := by
      rw [hfamily]
      decide
    rw [salen, if_neg hne, if_pos hfamily, hlen]

theorem Sockaddr.length_le (sa : Sockaddr o) : sa.bytes.length ≤ 28 := by
  rcases sa.wf with ⟨-, hlen⟩ | ⟨-, hlen⟩ <;> omega

@[simp] theorem length_sadbMsg (version type errno satype len seq pid : ℕ) :
    (sadbMsg o version type errno satype len seq pid).length = 16 := by
  simp [sadbMsg]

@[simp] theorem length_sadbAddress (len exttype proto prefixlen : ℕ) :
    (sadbAddress o len exttype proto prefixlen).length = 8 := by
  simp [sadbAddress]

@[simp] theorem length_sadbKey (len exttype bits : ℕ) :
    (sadbKey o len exttype bits).length = 8 := by
  simp [sadbKey]

@[simp] theorem length_saExt (spi alg : ℕ) : (saExt o spi alg).length = 16 := by
  simp [saExt, sadbSa]

theorem length_append_pad (bs : List UInt8) :
    8 + (bs ++ pad bs.length).length = (8 + bs.length + 7) / 8 * 8 := by
  rw [List.length_append, pad, List.length_replicate]
  omega

@[simp] theorem length_addressExt (exttype : ℕ) (sa : List UInt8) :
    (addressExt o exttype sa).length = (8 + sa.length + 7) / 8 * 8 := by
  rw [addressExt, List.length_append, length_sadbAddress, length_append_pad]

@[simp] theorem length_keyExt (key : List UInt8) :
    (keyExt o key).length = (8 + key.length + 7) / 8 * 8 := by
  rw [keyExt, List.length_append, length_sadbKey, length_append_pad]

/-! ### What is built -/

/-- The message when `as` has been put in: the rest of the buffer is still cleared. -/
def Build.filled (as : List UInt8) : Build :=
  ⟨as ++ List.replicate (4096 - as.length) 0, as.length⟩

section Build

variable {as : List UInt8}

theorem start_eq : Build.start = .filled [] := rfl

/-- A structure is put in. -/
theorem put_filled {bs : List UInt8} {size : ℕ} (hsize : bs.length = size) :
    (Build.filled as).put bs size = .filled (as ++ bs) := by
  subst hsize
  simp only [Build.put, Build.filled, writeAt_replicate, List.length_append, Nat.sub_sub]

/-- A structure with something behind it, filled up to a multiple of eight bytes. -/
theorem filled_put {hdr bs : List UInt8} {w : ℕ} (hhdr : hdr.length = 8)
    (hw : (hdr ++ (bs ++ pad bs.length)).length = w)
    (hroom : (as ++ (hdr ++ (bs ++ pad bs.length))).length ≤ 4096) :
    (⟨writeAt (writeAt (Build.filled as).buf (Build.filled as).p hdr) ((Build.filled as).p + 8) bs,
        (Build.filled as).p + w⟩ : Build) =
      .filled (as ++ (hdr ++ (bs ++ pad bs.length))) := by
  subst hw
  have hat : as.length + 8 = (as ++ hdr).length := by rw [List.length_append, hhdr]
  have hsplit : List.replicate (4096 - as.length - hdr.length - bs.length) (0 : UInt8) =
      pad bs.length ++
        List.replicate (4096 - (as ++ (hdr ++ (bs ++ pad bs.length))).length) 0 := by
    simp only [List.length_append, pad, List.length_replicate] at hroom ⊢
    rw [List.replicate_append_replicate]
    congr 1
    omega
  simp only [Build.filled]
  rw [writeAt_replicate, hat, writeAt_replicate, hsplit]
  simp only [List.append_assoc, List.length_append]

theorem putAddress_filled (exttype : ℕ) (sa : Sockaddr o)
    (hroom : (as ++ addressExt o exttype sa.bytes).length ≤ 4096) :
    (Build.filled as).putAddress o exttype sa.bytes =
      .filled (as ++ addressExt o exttype sa.bytes) := by
  have hle := sa.length_le
  have hlen : (8 + sa.bytes.length + 7) / 8 % 65536 = (8 + sa.bytes.length + 7) / 8 := by omega
  simp only [Build.putAddress, sa.salen_eq, List.take_length, hlen]
  exact filled_put (length_sadbAddress ..) (length_addressExt exttype sa.bytes) hroom

theorem putKey_filled {keybits : ℕ} {keydata key : List UInt8}
    (hkey : keydata.take (keybits / 8) = key) (hlen : 8 * key.length = keybits)
    (hbits : keybits < 65536) (hroom : (as ++ keyExt o key).length ≤ 4096) :
    (Build.filled as).putKey o keybits keydata = .filled (as ++ keyExt o key) := by
  have hwords : (8 + keybits / 8 + 7) / 8 % 65536 = (8 + key.length + 7) / 8 := by omega
  simp only [Build.putKey, hkey, hwords]
  rw [← hlen]
  exact filled_put (length_sadbKey ..) (length_keyExt key) hroom

/-- The length is put into the header last. -/
theorem writeAt_sadbMsg (version type errno satype len seq pid : ℕ) (rest : List UInt8) :
    writeAt (sadbMsg o version type errno satype 0 seq pid ++ rest) 4 (o.enc 2 len) =
      sadbMsg o version type errno satype len seq pid ++ rest := by
  have hat := @writeAt_append _ (o.enc 2 0)
    (o.enc 1 version ++ (o.enc 1 type ++ (o.enc 1 errno ++ o.enc 1 satype))) (o.enc 2 len)
    (o.enc 2 0 ++ (o.enc 4 seq ++ (o.enc 4 pid ++ rest))) (by simp)
  simpa [sadbMsg] using hat

end Build

/-! ### What is printed -/

section Print

variable {post : List UInt8}

/-- An extension is printed wherever it stands. -/
theorem extPrint_append_add (pre mem : List UInt8) :
    extPrint o (pre ++ mem) pre.length = extPrint o mem 0 := by
  have hlen : get o (pre ++ mem) pre.length 2 = get o mem 0 2 := get_append_add pre mem 0 2
  simp only [extPrint, saPrint, lifetimePrint, addressPrint, keyPrint, supportedPrint,
    Nat.add_assoc, get_append_add, slice_append_add, hlen, Nat.zero_add]

theorem extPrint_saExt (spi alg : ℕ) :
    extPrint o (saExt o spi alg ++ post) 0 =
      .sa (htonl o spi) 0 sadbSastateMature (alg % 256) sadbEalgNone 0 := by
  have htype : get o (saExt o spi alg ++ post) (0 + 2) 2 = sadbExtSa := by
    simp [saExt, sadbSa, get_enc_append, get_enc_append_of_le, sadbExtSa]
  have hspi : htonl o spi % 4294967296 = htonl o spi := by
    refine Nat.mod_eq_of_lt ?_
    have hlt := o.dec_lt (Order.big.enc 4 spi)
    rwa [Order.length_enc] at hlt
  have hprint : extPrint o (saExt o spi alg ++ post) 0 = saPrint o (saExt o spi alg ++ post) 0 := by
    simp only [extPrint, htype]
    rfl
  rw [hprint]
  simp [saPrint, saExt, sadbSa, get_enc_append, get_enc_append_of_le, hspi, sadbSastateMature,
    sadbEalgNone]

theorem prefixAll_lt (sa : List UInt8) : prefixAll o sa < 256 := by
  unfold prefixAll
  split
  · decide
  · split <;> decide

/-- What stands behind a structure of eight bytes. -/
theorem slice_behind {hdr bs : List UInt8} {w : ℕ} (hhdr : hdr.length = 8) (hw : bs.length = w)
    (rest : List UInt8) : slice (hdr ++ (bs ++ rest)) (0 + 8) w = bs := by
  have hat := slice_append_add hdr (bs ++ rest) 0 w
  rw [hhdr, slice_zero_append hw] at hat
  exact hat

/-- The two address extensions that are built are printed by `address_print`. -/
theorem extPrint_sadbAddress {len exttype prefixlen : ℕ} {bs : List UInt8}
    (hext : exttype = sadbExtAddressSrc ∨ exttype = sadbExtAddressDst) (hlen : len < 65536)
    (hbs : bs.length = len * 8 - 8) (hbitlen : prefixlen < 256) :
    extPrint o (sadbAddress o len exttype 0 prefixlen ++ (bs ++ post)) 0 =
      .address exttype bs prefixlen 0 := by
  have hslice := slice_behind (length_sadbAddress (o := o) len exttype 0 prefixlen) hbs post
  have hsmall : exttype % 65536 = exttype := by rcases hext with rfl | rfl <;> rfl
  have hget :
      get o (sadbAddress o len exttype 0 prefixlen ++ (bs ++ post)) (0 + 2) 2 = exttype := by
    simp [sadbAddress, get_enc_append, get_enc_append_of_le, hsmall]
  have hprint : extPrint o (sadbAddress o len exttype 0 prefixlen ++ (bs ++ post)) 0 =
      addressPrint o (sadbAddress o len exttype 0 prefixlen ++ (bs ++ post)) 0 := by
    simp only [extPrint, hget]
    rcases hext with rfl | rfl <;> rfl
  have hfirst : get o (sadbAddress o len exttype 0 prefixlen ++ (bs ++ post)) 0 2 = len := by
    simp [sadbAddress, get_enc_append, hlen]
  rw [hprint, addressPrint, hfirst, hslice, hget]
  simp [sadbAddress, get_enc_append, get_enc_append_of_le, hbitlen]

theorem extPrint_addressExt {exttype : ℕ} (sa : Sockaddr o)
    (hext : exttype = sadbExtAddressSrc ∨ exttype = sadbExtAddressDst) :
    extPrint o (addressExt o exttype sa.bytes ++ post) 0 =
      .address exttype (sa.bytes ++ pad sa.bytes.length) (prefixAll o sa.bytes) 0 := by
  have hle := sa.length_le
  have hpad := length_append_pad sa.bytes
  rw [addressExt, List.append_assoc]
  exact extPrint_sadbAddress hext (by omega) (by omega) (prefixAll_lt sa.bytes)

theorem extPrint_keyExt {key : List UInt8} (hlt : 8 * key.length < 65536) :
    extPrint o (keyExt o key ++ post) 0 = .key sadbExtKeyAuth (8 * key.length) key := by
  have hbytes : key.length = (8 * key.length + 7) / 8 := by omega
  have hmem : keyExt o key ++ post =
      sadbKey o ((8 + key.length + 7) / 8) sadbExtKeyAuth (8 * key.length) ++
        (key ++ (pad key.length ++ post)) := by
    rw [keyExt, List.append_assoc, List.append_assoc]
  have hslice := slice_behind (length_sadbKey (o := o) ((8 + key.length + 7) / 8) sadbExtKeyAuth
    (8 * key.length)) hbytes (pad key.length ++ post)
  rw [← hmem] at hslice
  have htype : get o (keyExt o key ++ post) (0 + 2) 2 = sadbExtKeyAuth := by
    simp [hmem, sadbKey, get_enc_append, get_enc_append_of_le, sadbExtKeyAuth]
  have hbits : get o (keyExt o key ++ post) (0 + 4) 2 = 8 * key.length := by
    simp [hmem, sadbKey, get_enc_append, get_enc_append_of_le, hlt]
  have hprint : extPrint o (keyExt o key ++ post) 0 = keyPrint o (keyExt o key ++ post) 0 := by
    simp only [extPrint, htype]
    rfl
  simp only [hprint, keyPrint, htype, hbits, hslice]

end Print

/-! ### The message -/

section Message

variable {src dst : Sockaddr o} {type alg spi pid : UInt32} {keybits : ℕ} {keydata key : List UInt8}

/-- The extensions of the message, in their order. -/
def exts (src dst : Sockaddr o) (alg spi : UInt32) (key : List UInt8) : List (List UInt8) :=
  [saExt o spi.toNat alg.toNat, addressExt o sadbExtAddressSrc src.bytes,
    addressExt o sadbExtAddressDst dst.bytes, keyExt o key]

/-- The length of the message, whether it fits or not. -/
theorem p_sadbAdd (hlen : 8 * key.length = keybits) (hbits : keybits < 65536) :
    (sadbAdd o src.bytes dst.bytes type alg spi keybits keydata pid).p =
      16 + (exts src dst alg spi key).flatten.length := by
  have hsrc := src.length_le
  have hdst := dst.length_le
  simp only [sadbAdd, Build.start, Build.put, Build.putAddress, Build.putKey, Sockaddr.salen_eq,
    exts, List.flatten_cons, List.flatten_nil, List.append_nil, List.length_append, length_saExt,
    length_addressExt, length_keyExt]
  omega

/-- The loop of `print_sadb_msg` moves from one extension to the next. -/
theorem stride_exts {c : List UInt8} (hbits : 8 * key.length < 65536)
    (hc : c ∈ exts src dst alg spi key) (rest : List UInt8) :
    get o (c ++ rest) 0 2 * 8 = c.length := by
  have hsrc := src.length_le
  have hdst := dst.length_le
  simp only [exts, List.mem_cons, List.not_mem_nil, or_false] at hc
  rcases hc with rfl | rfl | rfl | rfl
  · rw [length_saExt, saExt, sadbSa, List.append_assoc, get_enc_append]
    rfl
  · rw [length_addressExt, addressExt, sadbAddress, List.append_assoc, List.append_assoc,
      get_enc_append]
    omega
  · rw [length_addressExt, addressExt, sadbAddress, List.append_assoc, List.append_assoc,
      get_enc_append]
    omega
  · rw [length_keyExt, keyExt, sadbKey, List.append_assoc, List.append_assoc, get_enc_append]
    omega

/-- What is printed of an extension does not depend on what stands behind it. -/
theorem extPrint_exts {c : List UInt8} (hbits : 8 * key.length < 65536)
    (hc : c ∈ exts src dst alg spi key) (rest : List UInt8) :
    extPrint o (c ++ rest) 0 = extPrint o (c ++ []) 0 := by
  simp only [exts, List.mem_cons, List.not_mem_nil, or_false] at hc
  rcases hc with rfl | rfl | rfl | rfl
  · rw [extPrint_saExt, extPrint_saExt]
  · rw [extPrint_addressExt src (.inl rfl), extPrint_addressExt src (.inl rfl)]
  · rw [extPrint_addressExt dst (.inr rfl), extPrint_addressExt dst (.inr rfl)]
  · rw [extPrint_keyExt hbits, extPrint_keyExt hbits]

/-- **What `sadb_add` builds**: a header, the four extensions and cleared memory. -/
theorem sadbAdd_eq (hkey : keydata.take (keybits / 8) = key) (hlen : 8 * key.length = keybits)
    (hbits : keybits < 65536) (hfit : 16 + (exts src dst alg spi key).flatten.length ≤ 4096) :
    sadbAdd o src.bytes dst.bytes type alg spi keybits keydata pid =
      ⟨sadbMsg o pfKeyV2 sadbTypeAdd 0 type.toNat
          ((16 + (exts src dst alg spi key).flatten.length) / 8) 0 pid.toNat ++
          ((exts src dst alg spi key).flatten ++
            List.replicate (4096 - (16 + (exts src dst alg spi key).flatten.length)) 0),
        16 + (exts src dst alg spi key).flatten.length⟩ := by
  have hflat : (exts src dst alg spi key).flatten = saExt o spi.toNat alg.toNat ++
      (addressExt o sadbExtAddressSrc src.bytes ++
        (addressExt o sadbExtAddressDst dst.bytes ++ keyExt o key)) := by
    simp [exts]
  rw [hflat] at hfit ⊢
  simp only [List.length_append] at hfit
  have hsa : saExt o spi.toNat alg.toNat = sadbSa o (16 / 8) sadbExtSa (htonl o spi.toNat) 0
    sadbSastateMature alg.toNat sadbEalgNone 0 := rfl
  simp only [sadbAdd, start_eq]
  rw [put_filled (length_sadbMsg ..), ← hsa, put_filled (length_saExt ..),
    putAddress_filled sadbExtAddressSrc src ?_, putAddress_filled sadbExtAddressDst dst ?_,
    putKey_filled hkey hlen hbits ?_]
  · simp only [Build.filled, List.nil_append, List.append_assoc, writeAt_sadbMsg,
      List.length_append, length_sadbMsg]
  all_goals
    simp only [List.nil_append, List.length_append, length_sadbMsg]
    omega

/-- What is read of the header. -/
theorem printSadbMsg_sadbMsg {mem rest : List UInt8} {type satype len pid : ℕ} {msglen : ℤ}
    (hmem : mem = sadbMsg o pfKeyV2 type 0 satype len 0 pid ++ rest)
    (hlen : msglen = len % 65536 * 8) (hne : msglen ≠ 16) :
    printSadbMsg o mem msglen =
      match scan (fun ext => get o mem ext 2 * 8)
          (fun visits ext => (.ok (visits ++ [extPrint o mem ext]) : Except Empty _))
          msglen.toNat 16 (msglen - 16) [] with
      | some (.ok (visits, left)) =>
        some (.msg ⟨type % 256, 0, satype % 256, 0, pid % 4294967296⟩ visits left)
      | _ => none := by
  have hread : get o mem 4 2 = len % 65536 ∧ get o mem 0 1 = pfKeyV2 ∧
      get o mem 1 1 = type % 256 ∧ get o mem 2 1 = 0 ∧ get o mem 3 1 = satype % 256 ∧
      get o mem 8 4 = 0 ∧ get o mem 12 4 = pid % 4294967296 := by
    simp [hmem, sadbMsg, get_enc_append, get_enc_append_of_le, pfKeyV2]
  obtain ⟨hl, hv, ht, he, hs, hq, hp⟩ := hread
  unfold printSadbMsg
  rw [hl, hv, ht, he, hs, hq, hp, if_neg (by simpa using hlen), if_neg (by simp)]
  simp only [if_neg hne]

/-- The loop of `print_sadb_msg` over the extensions. -/
theorem scan_exts {hdr rest : List UInt8} {fuel : ℕ} (hbits : 8 * key.length < 65536)
    (hhdr : hdr.length = 16) (hfuel : 4 ≤ fuel) :
    scan (fun ext => get o (hdr ++ ((exts src dst alg spi key).flatten ++ rest)) ext 2 * 8)
      (fun visits ext => (.ok (visits ++
        [extPrint o (hdr ++ ((exts src dst alg spi key).flatten ++ rest)) ext]) : Except Empty _))
      fuel 16 (exts src dst alg spi key).flatten.length [] =
    some (.ok ((exts src dst alg spi key).map fun c => extPrint o (c ++ []) 0, 0)) := by
  have hscan := @scan_eq_run UInt8 (List UInt8) (List Visit) Empty id
    (hdr ++ ((exts src dst alg spi key).flatten ++ rest))
    (fun ext => get o (hdr ++ ((exts src dst alg spi key).flatten ++ rest)) ext 2 * 8)
    (fun visits ext => .ok (visits ++
      [extPrint o (hdr ++ ((exts src dst alg spi key).flatten ++ rest)) ext]))
    (fun visits _ c => .ok (visits ++ [extPrint o (c ++ []) 0]))
    (exts src dst alg spi key) fuel hdr rest [] (by rw [List.map_id]) ?_ ?_ hfuel
  · rw [hhdr, List.map_id] at hscan
    rw [hscan]
    rfl
  · intro c hc
    have hstride := stride_exts hbits hc
    refine ⟨?_, ?_⟩
    · rintro rfl
      have := hstride (o.enc 2 1)
      rw [List.nil_append, ← List.append_nil (o.enc 2 1), get_enc_append] at this
      cases this
    · intro pre post hmem
      rw [id] at hmem
      have hat := get_append_add (o := o) pre (c ++ post) 0 2
      rw [← hmem] at hat
      exact (congrArg (· * 8) hat).trans (hstride post)
  · intro c hc pre post hmem visits
    rw [id] at hmem
    rw [hmem, extPrint_append_add, extPrint_exts hbits hc post]

end Message

/-- **The message that `sadb_add` builds is read back by `print_sadb_msg`.**  Its length and
its version are accepted, the four extensions are visited in their order, nothing of the
length is left, and the values are those put in. -/
theorem print_sadbAdd (o : Order) (src dst : Sockaddr o) (type alg spi pid : UInt32) (keybits : ℕ)
    (keydata : List UInt8) (hdvd : 8 ∣ keybits) (hbits : keybits < 65536)
    (hkey : keybits / 8 ≤ keydata.length)
    (hfit : (sadbAdd o src.bytes dst.bytes type alg spi keybits keydata pid).p ≤ 4096) :
    printSadbMsg o (sadbAdd o src.bytes dst.bytes type alg spi keybits keydata pid).buf
        (sadbAdd o src.bytes dst.bytes type alg spi keybits keydata pid).p =
      some (.msg ⟨sadbTypeAdd, 0, type.toNat % 256, 0, pid.toNat⟩
        [.sa (htonl o spi.toNat) 0 sadbSastateMature (alg.toNat % 256) sadbEalgNone 0,
          .address sadbExtAddressSrc (src.bytes ++ pad src.bytes.length) (prefixAll o src.bytes) 0,
          .address sadbExtAddressDst (dst.bytes ++ pad dst.bytes.length) (prefixAll o dst.bytes) 0,
          .key sadbExtKeyAuth keybits (keydata.take (keybits / 8))] 0) := by
  set key := keydata.take (keybits / 8) with hkeydef
  have hlen : 8 * key.length = keybits := by
    rw [hkeydef, List.length_take]
    omega
  have hlt : 8 * key.length < 65536 := by omega
  rw [p_sadbAdd hlen hbits] at hfit
  rw [sadbAdd_eq hkeydef.symm hlen hbits hfit]
  have hwords : 16 + (exts src dst alg spi key).flatten.length =
      (16 + (exts src dst alg spi key).flatten.length) / 8 % 65536 * 8 := by
    simp only [exts, List.flatten_cons, List.flatten_nil, List.append_nil, List.length_append,
      length_saExt, length_addressExt, length_keyExt] at hfit ⊢
    omega
  have hpos : 16 ≤ (exts src dst alg spi key).flatten.length := by
    simp only [exts, List.flatten_cons, List.length_append, length_saExt]
    omega
  have hpid : pid.toNat % 4294967296 = pid.toNat := Nat.mod_eq_of_lt pid.toNat_lt
  simp only
  rw [printSadbMsg_sadbMsg rfl (by omega) (by omega)]
  have hleft : ((16 + (exts src dst alg spi key).flatten.length : ℕ) : ℤ) - 16 =
      (exts src dst alg spi key).flatten.length := by omega
  rw [hleft, scan_exts hlt (length_sadbMsg ..) (by omega)]
  simp only [exts, List.map_cons, List.map_nil, extPrint_saExt, hpid,
    extPrint_addressExt src (.inl rfl), extPrint_addressExt dst (.inr rfl), extPrint_keyExt hlt,
    hlen]
  rfl

/-- The address 10.0.0.1 on a machine that keeps the lowest byte first. -/
def hostAddr : Sockaddr .little := ⟨[2, 0, 0, 0, 10, 0, 0, 1, 0, 0, 0, 0, 0, 0, 0, 0], by decide⟩

/-- A key of 24 bits, which does not fill its last word. -/
theorem print_sadbAdd_short :
    printSadbMsg .little
        (sadbAdd .little hostAddr.bytes hostAddr.bytes 2 3 0x9876 24 [1, 2, 3] 7).buf
        (sadbAdd .little hostAddr.bytes hostAddr.bytes 2 3 0x9876 24 [1, 2, 3] 7).p =
      some (.msg ⟨3, 0, 2, 0, 7⟩
        [.sa 0x76980000 0 1 3 0 0, .address 5 hostAddr.bytes 32 0, .address 6 hostAddr.bytes 32 0,
          .key 8 24 [1, 2, 3]] 0) :=
  print_sadbAdd .little hostAddr hostAddr 2 3 0x9876 7 24 [1, 2, 3] (by decide) (by decide)
    (by decide) (by decide)

end TcpIp.Key
