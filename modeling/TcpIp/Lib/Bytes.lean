import Mathlib.Algebra.Group.Int.Defs
import Mathlib.Algebra.Group.Nat.Defs
import Mathlib.Data.List.Basic
import Mathlib.Data.List.TakeWhile
import Mathlib.Tactic.Common

/-!
# Numbers in memory

Memory is a list of bytes.  A number is kept in some bytes that follow each other, in
one of the two byte orders.

## Main definitions

* `byte mem i`, `slice mem i w` — the byte at a position, and `w` bytes from there.
* `Order.enc`, `Order.dec` — the bytes of a number, and the number of some bytes.
* `get o mem i w` — the number kept in `w` bytes.
* `asUnsigned` — a number as it is seen by a comparison with an unsigned one.
* `cstring` — the string at some position.

## Main results

* `Order.dec_enc` — a number that has room is read back.
* `byte_append`, `slice_append`, `get_append` — what lies within a first part of the
  memory does not depend on the rest.
-/

namespace Bytes

variable {mem rest : List UInt8} {i w n : ℕ}

/-! ### Positions -/

/-- The byte at the position `i`. -/
def byte (mem : List UInt8) (i : ℕ) : ℕ := (mem.getD i 0).toNat

/-- `w` bytes from the position `i` on. -/
def slice (mem : List UInt8) (i w : ℕ) : List UInt8 := (mem.drop i).take w

theorem byte_append (h : i < mem.length) : byte (mem ++ rest) i = byte mem i := by
  rw [byte, byte, List.getD_eq_getElem?_getD, List.getD_eq_getElem?_getD,
    List.getElem?_append_left h]

theorem slice_append (h : i + w ≤ mem.length) : slice (mem ++ rest) i w = slice mem i w := by
  have hi : i ≤ mem.length := by omega
  have hw : w ≤ (mem.drop i).length := by
    rw [List.length_drop]
    omega
  rw [slice, slice, List.drop_append_of_le_length hi, List.take_append_of_le_length hw]

/-- What stands behind a first part of the memory. -/
theorem byte_append_add (pre mem : List UInt8) (i : ℕ) :
    byte (pre ++ mem) (pre.length + i) = byte mem i := by
  rw [byte, byte, List.getD_eq_getElem?_getD, List.getD_eq_getElem?_getD,
    List.getElem?_append_right (Nat.le_add_right ..), Nat.add_sub_cancel_left]

@[inherit_doc byte_append_add]
theorem slice_append_add (pre mem : List UInt8) (i w : ℕ) :
    slice (pre ++ mem) (pre.length + i) w = slice mem i w := by
  rw [slice, slice, ← List.drop_drop, List.drop_left]

/-- Bytes are read where they stand. -/
theorem slice_mid (pre bs post : List UInt8) :
    slice (pre ++ (bs ++ post)) pre.length bs.length = bs := by
  rw [slice, List.drop_left, List.take_left]

theorem length_slice (h : i + w ≤ mem.length) : (slice mem i w).length = w := by
  rw [slice, List.length_take, List.length_drop]
  omega

/-- The bytes `bs` stand at the position `i`. -/
def Holds (mem : List UInt8) (i : ℕ) (bs : List UInt8) : Prop :=
  ∃ pre post, mem = pre ++ (bs ++ post) ∧ pre.length = i

section Holds

variable {bs : List UInt8}

theorem Holds.append (h : Holds mem i bs) (rest : List UInt8) : Holds (mem ++ rest) i bs := by
  obtain ⟨pre, post, rfl, rfl⟩ := h
  exact ⟨pre, post ++ rest, by simp only [List.append_assoc], rfl⟩

/-- A part of what stands there. -/
theorem Holds.part {j : ℕ} (h : Holds mem i bs) (hle : j ≤ bs.length) :
    Holds mem (i + j) (slice bs j w) := by
  obtain ⟨pre, post, rfl, rfl⟩ := h
  refine ⟨pre ++ bs.take j, bs.drop (j + w) ++ post, ?_, ?_⟩
  · have hsplit : bs.take j ++ (slice bs j w ++ bs.drop (j + w)) = bs := by
      rw [Bytes.slice, ← List.drop_drop, List.take_append_drop, List.take_append_drop]
    simp only [List.append_assoc]
    rw [← List.append_assoc (slice bs j w), ← List.append_assoc (bs.take j), hsplit]
  · rw [List.length_append, List.length_take, Nat.min_eq_left hle]

/-- What is read there. -/
theorem Holds.byte_eq {j : ℕ} (h : Holds mem i bs) (hj : j < bs.length) :
    byte mem (i + j) = byte bs j := by
  obtain ⟨pre, post, rfl, rfl⟩ := h
  rw [byte_append_add, byte_append hj]

@[inherit_doc Holds.byte_eq]
theorem Holds.slice_part {j : ℕ} (h : Holds mem i bs) (hj : j + w ≤ bs.length) :
    slice mem (i + j) w = slice bs j w := by
  obtain ⟨pre, post, rfl, rfl⟩ := h
  rw [slice_append_add, slice_append hj]

theorem Holds.slice_eq (h : Holds mem i bs) : slice mem i bs.length = bs := by
  obtain ⟨pre, post, rfl, rfl⟩ := h
  exact slice_mid pre bs post

end Holds

/-! ### Byte order -/

/-- The `w` low bytes of a number, the lowest first. -/
def lowBytes : ℕ → ℕ → List UInt8
  | 0, _ => []
  | w + 1, n => UInt8.ofNat n :: lowBytes w (n / 256)

/-- The number with these bytes, the lowest first. -/
def ofLowBytes : List UInt8 → ℕ
  | [] => 0
  | b :: bs => b.toNat + 256 * ofLowBytes bs

theorem length_lowBytes : ∀ w n, (lowBytes w n).length = w := by
  intro w
  induction w with
  | zero => intro n; rfl
  | succ w ih => intro n; rw [lowBytes, List.length_cons, ih]

theorem ofLowBytes_lowBytes : ∀ w n, ofLowBytes (lowBytes w n) = n % 256 ^ w := by
  intro w
  induction w with
  | zero => intro n; rw [lowBytes, ofLowBytes, Nat.pow_zero, Nat.mod_one]
  | succ w ih =>
    intro n
    have hlow : (UInt8.ofNat n).toNat = n % 256 := rfl
    have hpow : 256 ^ (w + 1) = 256 * 256 ^ w := Nat.pow_succ'
    rw [lowBytes, ofLowBytes, ih, hlow, hpow, Nat.mod_mul]

theorem ofLowBytes_lt (bs : List UInt8) : ofLowBytes bs < 256 ^ bs.length := by
  induction bs with
  | nil => exact Nat.one_pos
  | cons b bs ih =>
    have hb := b.toNat_lt
    have hpow : 256 ^ (b :: bs).length = 256 * 256 ^ bs.length := Nat.pow_succ'
    rw [ofLowBytes, hpow]
    omega

/-- The two byte orders. -/
inductive Order where
  /-- The lowest byte first. -/
  | little
  /-- The highest byte first, the order of the network. -/
  | big
  deriving DecidableEq, Repr

namespace Order

variable {o : Order}

/-- A number in `w` bytes. -/
def enc (o : Order) (w n : ℕ) : List UInt8 :=
  match o with
  | little => lowBytes w n
  | big => (lowBytes w n).reverse

/-- The number in some bytes. -/
def dec (o : Order) (bs : List UInt8) : ℕ :=
  match o with
  | little => ofLowBytes bs
  | big => ofLowBytes bs.reverse

@[simp] theorem length_enc : (o.enc w n).length = w := by
  cases o with
  | little => exact length_lowBytes w n
  | big => exact List.length_reverse.trans (length_lowBytes w n)

theorem dec_lt (o : Order) (bs : List UInt8) : o.dec bs < 256 ^ bs.length := by
  cases o with
  | little => exact ofLowBytes_lt bs
  | big =>
    have h := ofLowBytes_lt bs.reverse
    rwa [List.length_reverse] at h

/-- **What is read back.** -/
theorem dec_enc : o.dec (o.enc w n) = n % 256 ^ w := by
  cases o with
  | little => exact ofLowBytes_lowBytes w n
  | big => rw [dec, enc, List.reverse_reverse, ofLowBytes_lowBytes]

end Order

/-- The number kept in `w` bytes at the position `i`. -/
def get (o : Order) (mem : List UInt8) (i w : ℕ) : ℕ := o.dec (slice mem i w)

theorem get_lt (o : Order) (mem : List UInt8) (i w : ℕ) : get o mem i w < 256 ^ w := by
  have hlen : (slice mem i w).length ≤ w := List.length_take_le ..
  exact Nat.lt_of_lt_of_le (o.dec_lt _) (Nat.pow_le_pow_right (by decide) hlen)

theorem get_append {o : Order} (h : i + w ≤ mem.length) :
    get o (mem ++ rest) i w = get o mem i w := by
  rw [get, get, slice_append h]

theorem get_append_add {o : Order} (pre mem : List UInt8) (i w : ℕ) :
    get o (pre ++ mem) (pre.length + i) w = get o mem i w := by
  rw [get, get, slice_append_add]

theorem Holds.get_eq {o : Order} {bs : List UInt8} {j : ℕ} (h : Holds mem i bs)
    (hj : j + w ≤ bs.length) : get o mem (i + j) w = get o bs j w := by
  rw [get, get, h.slice_part hj]

/-! ### Fields one behind the other -/

section Fields

variable {o : Order} {v : ℕ}

/-- A field is read where it stands. -/
theorem get_enc_append : get o (o.enc w n ++ rest) 0 w = n % 256 ^ w := by
  have hslice : slice (o.enc w n ++ rest) 0 w = o.enc w n := by
    rw [slice, List.drop_zero]
    exact List.take_left' Order.length_enc
  rw [get, hslice, Order.dec_enc]

/-- A field behind the first one. -/
theorem slice_enc_append (h : w ≤ i) :
    slice (o.enc w n ++ rest) i v = slice rest (i - w) v := by
  have hat := slice_append_add (o.enc w n) rest (i - w) v
  rwa [Order.length_enc, Nat.add_sub_cancel' h] at hat

@[inherit_doc slice_enc_append]
theorem get_enc_append_of_le (h : w ≤ i) :
    get o (o.enc w n ++ rest) i v = get o rest (i - w) v := by
  rw [get, get, slice_enc_append h]

/-- What stands at the start. -/
theorem slice_zero_append {bs : List UInt8} (h : bs.length = w) :
    slice (bs ++ rest) 0 w = bs := by
  rw [slice, List.drop_zero]
  exact List.take_left' h

end Fields

/-! ### Strings -/

section Strings

variable {p : ℕ} {t tail : List UInt8}

/-- The string at the position `p`: the bytes up to the first zero. -/
def cstring (mem : List UInt8) (p : ℕ) : List UInt8 := (mem.drop p).takeWhile (· ≠ 0)

/-- A string ends at a zero, whatever is behind it. -/
theorem cstring_eq (h : mem.drop p = t ++ 0 :: tail) : cstring mem p = t.takeWhile (· ≠ 0) := by
  rw [cstring, h, List.takeWhile_append]
  split
  · next hall =>
    rw [(List.takeWhile_prefix _).eq_of_length hall]
    simp
  · rfl

theorem zero_notMem_cstring (mem : List UInt8) (p : ℕ) : 0 ∉ cstring mem p := by
  intro hmem
  simpa using List.mem_takeWhile_imp hmem

theorem cstring_eq_of_notMem (h : mem.drop p = t ++ 0 :: tail) (ht : 0 ∉ t) :
    cstring mem p = t := by
  rw [cstring_eq h]
  exact List.takeWhile_eq_self_iff.mpr fun b hb => decide_eq_true fun hzero => ht (hzero ▸ hb)

/-- A list up to the first item that does not meet `q`, if `c` is the only such item. -/
theorem exists_takeWhile_append {α : Type*} {q : α → Bool} {l : List α} {c : α} (hc : c ∈ l)
    (hq : ∀ y, q y = false ↔ y = c) : ∃ rest, l = l.takeWhile q ++ c :: rest := by
  have hne : l.dropWhile q ≠ [] := by
    intro hnil
    have hmeets := List.dropWhile_eq_nil_iff.mp hnil c hc
    rw [(hq c).mpr rfl] at hmeets
    cases hmeets
  obtain ⟨y, rest, hdrop⟩ := List.exists_cons_of_ne_nil hne
  have hy : q y = false := by
    have hhead := List.head_dropWhile_not q hne
    simpa [hdrop] using hhead
  obtain rfl := (hq y).mp hy
  exact ⟨rest, by rw [← hdrop, List.takeWhile_append_dropWhile]⟩

end Strings

/-! ### Signs -/

section Signs

variable {bits : ℕ} {x : ℤ}

/-- A number that is converted to an unsigned type of `bits` bits. -/
def asUnsigned (bits : ℕ) (x : ℤ) : ℤ := x % 2 ^ bits

theorem asUnsigned_le (hx : 0 ≤ x) : asUnsigned bits x ≤ x := by
  obtain ⟨k, rfl⟩ := Int.eq_ofNat_of_zero_le hx
  unfold asUnsigned
  exact_mod_cast Nat.mod_le k (2 ^ bits)

theorem asUnsigned_of_lt (hx : 0 ≤ x) (hlt : x < 2 ^ bits) : asUnsigned bits x = x :=
  Int.emod_eq_of_lt hx hlt

end Signs

end Bytes
