import Mathlib.Data.Int.Notation
import TcpIp.Lib.Buffer

/-!
# Source route options

`inet_srcrt_init` and `inet_srcrt_add` form an IP option that names the routers a packet is
to go through, in a buffer of 44 bytes: an option that does nothing, the type, the length,
a pointer and up to ten addresses.  The server gets the option that has come in with a
connection, with the address of the last router in front, and `inet_srcrt_print` prints it.

The position in the buffer, that of the length and the number of addresses are static
variables.  A name has been looked up before it is added here.  A store outside of the
buffer ends the program.

## Main definitions

* `inetSrcrtInit`, `inetSrcrtAdd`, `inetSrcrtPrint` — the functions.
* `addAll` — the loop of `main` over the names.
* `route` — the option for some addresses.

## Main results

* `add_formed`, `add_full` — an address is added as long as there are fewer than ten.
* `srcrt_roundTrip` — **the option is formed in the buffer and is printed as it was formed.**
-/

namespace TcpIp.Ipopts

open Buffer

def ipoptNop : UInt8 := 1
def ipoptLsrr : UInt8 := 131
def ipoptSsrr : UInt8 := 137

/-- `struct in_addr`. -/
structure InAddr where
  bytes : List UInt8
  length_eq : bytes.length = 4

/-! ### Forming the option -/

/-- How the program ends. -/
inductive Stop where
  /-- `err_quit`. -/
  | quit
  /-- A store outside of the buffer. -/
  | overrun
  deriving DecidableEq, Repr

/-- The buffer and the static variables. -/
structure Srcrt where
  mem : List UInt8
  optr : ℕ
  lenptr : ℕ
  ocnt : ℕ
  deriving DecidableEq, Repr

/-- Some bytes are stored at a position. -/
def store (mem : List UInt8) (i : ℕ) (bs : List UInt8) : Except Stop (List UInt8) :=
  if i + bs.length ≤ mem.length then .ok (writeAt mem i bs) else .error .overrun

/-- The type of the option. -/
def optType (type : ℤ) : UInt8 := if type ≠ 0 then ipoptSsrr else ipoptLsrr

/-- `inet_srcrt_init`. -/
def inetSrcrtInit (type : ℤ) : Except Stop Srcrt := do
  let mem := List.replicate 44 0
  let mem ← store mem 0 [ipoptNop]
  let mem ← store mem 1 [optType type]
  let lenptr := 2
  let mem ← store mem 3 [4]
  return ⟨mem, 4, lenptr, 0⟩

/-- `inet_srcrt_add`, with the length it returns. -/
def inetSrcrtAdd (s : Srcrt) (addr : InAddr) : Except Stop (Srcrt × ℕ) :=
  if 9 < s.ocnt then .error .quit
  else do
    let mem ← store s.mem s.optr addr.bytes
    let optr := s.optr + 4
    let ocnt := s.ocnt + 1
    let len := 3 + ocnt * 4
    let mem ← store mem s.lenptr [UInt8.ofNat len]
    return (⟨mem, optr, s.lenptr, ocnt⟩, len + 1)

/-- The addresses are added one after the other; `len` is what the last call has returned. -/
def addAll (s : Srcrt) (len : ℕ) : List InAddr → Except Stop (Srcrt × ℕ)
  | [] => .ok (s, len)
  | a :: as => do
    let (s, len) ← inetSrcrtAdd s a
    addAll s len as

/-! ### Printing it -/

/-- What is printed. -/
inductive Printed where
  /-- The type is another one. -/
  | other (c : UInt8)
  /-- The route, from the first hop on. -/
  | route (c : UInt8) (hop1 : List UInt8) (hops : List (List UInt8))
  deriving DecidableEq, Repr

/-- The leading options that do nothing are skipped; the next byte, and what follows it. -/
def skipNops : List UInt8 → Option (UInt8 × List UInt8)
  | [] => none
  | c :: ptr => if c = ipoptNop then skipNops ptr else some (c, ptr)

/-- The loop over the addresses.  The value is `none` if it has not ended after `fuel` turns,
or if it reads past the end. -/
def printHops : ℕ → ℤ → List UInt8 → Option (List (List UInt8))
  | 0, len, _ => if 0 < len then none else some []
  | fuel + 1, len, ptr =>
    if 0 < len then
      if ptr.length < 4 then none
      else (printHops fuel (len - 4) (ptr.drop 4)).map (ptr.take 4 :: ·)
    else some []

/-- `inet_srcrt_print`.  The length that is passed to it is not used. -/
def inetSrcrtPrint (ptr : List UInt8) (_len : ℤ) : Option Printed :=
  if ptr.length < 4 then none
  else
    let hop1 := ptr.take 4
    match skipNops (ptr.drop 4) with
    | none => none
    | some (c, ptr) =>
      if c = ipoptLsrr ∨ c = ipoptSsrr then
        match ptr with
        | l :: _ :: ptr =>
          let len : ℤ := l.toNat - 4
          (printHops l.toNat len ptr).map (.route c hop1)
        | _ => none
      else some (.other c)

/-! ### The option for some addresses -/

/-- The addresses one behind the other. -/
def addrs (as : List InAddr) : List UInt8 := (as.map InAddr.bytes).flatten

/-- The length byte, which is set when an address is added. -/
def lenByte (n : ℕ) : UInt8 := if n = 0 then 0 else UInt8.ofNat (3 + 4 * n)

/-- The option for some addresses. -/
def route (type : ℤ) (as : List InAddr) : List UInt8 :=
  [ipoptNop, optType type, lenByte as.length, 4] ++
    (addrs as ++ List.replicate (40 - 4 * as.length) 0)

/-- What there is when some addresses have been added. -/
def formed (type : ℤ) (as : List InAddr) : Srcrt :=
  ⟨route type as, 4 + 4 * as.length, 2, as.length⟩

section Route

variable {type : ℤ} {as bs : List InAddr} {a : InAddr} {rest : List UInt8} {len : ℕ}

@[simp] theorem length_addrs (as : List InAddr) : (addrs as).length = 4 * as.length := by
  induction as with
  | nil => rfl
  | cons a as ih =>
    rw [addrs, List.map_cons, List.flatten_cons, List.length_append, a.length_eq, ← addrs, ih,
      List.length_cons]
    omega

theorem addrs_append (as bs : List InAddr) : addrs (as ++ bs) = addrs as ++ addrs bs := by
  simp only [addrs, List.map_append, List.flatten_append]

theorem length_route (h : as.length ≤ 10) : (route type as).length = 44 := by
  simp only [route, List.length_append, length_addrs, List.length_replicate, List.length_cons,
    List.length_nil]
  omega

theorem init_eq (type : ℤ) : inetSrcrtInit type = .ok (formed type []) := rfl

theorem store_eq_ok {mem mem' bs : List UInt8} {i : ℕ} :
    store mem i bs = .ok mem' ↔ i + bs.length ≤ mem.length ∧ mem' = writeAt mem i bs := by
  unfold store
  split
  · next h => simp [h, eq_comm]
  · next h => simp [h]

theorem store_eq {mem bs : List UInt8} {i : ℕ} (h : i + bs.length ≤ mem.length) :
    store mem i bs = .ok (writeAt mem i bs) := store_eq_ok.mpr ⟨h, rfl⟩

/-- An address is stored behind the others. -/
theorem writeAt_route (type : ℤ) (as : List InAddr) (a : InAddr) :
    writeAt (route type as) (4 + 4 * as.length) a.bytes =
      [ipoptNop, optType type, lenByte as.length, 4] ++
        (addrs (as ++ [a]) ++ List.replicate (40 - 4 * (as ++ [a]).length) 0) := by
  have hat : 4 + 4 * as.length =
      ([ipoptNop, optType type, lenByte as.length, 4] ++ addrs as).length := by
    rw [List.length_append, length_addrs]
    rfl
  have hone : addrs [a] = a.bytes := by simp [addrs]
  have hroom : 40 - 4 * as.length - a.bytes.length = 40 - 4 * (as ++ [a]).length := by
    rw [a.length_eq, List.length_append, List.length_singleton]
    omega
  rw [route, ← List.append_assoc, hat, writeAt_replicate, hroom, addrs_append, hone]
  simp only [List.append_assoc]

/-- **An address is added.** -/
theorem add_formed (h : as.length < 10) (a : InAddr) : inetSrcrtAdd (formed type as) a =
    .ok (formed type (as ++ [a]), 4 + 4 * (as.length + 1)) := by
  have hlen := @length_route type as (by omega)
  have haddr : store (route type as) (4 + 4 * as.length) a.bytes =
      .ok (writeAt (route type as) (4 + 4 * as.length) a.bytes) :=
    store_eq (by rw [hlen, a.length_eq]; omega)
  have hbyte : UInt8.ofNat (3 + (as.length + 1) * 4) = lenByte (as ++ [a]).length := by
    rw [lenByte, List.length_append, List.length_singleton, if_neg (by omega), Nat.mul_comm]
  have hlenptr : store (writeAt (route type as) (4 + 4 * as.length) a.bytes) 2
      [UInt8.ofNat (3 + (as.length + 1) * 4)] = .ok (route type (as ++ [a])) := by
    rw [store_eq, writeAt_route, hbyte, route]
    · exact congrArg Except.ok (@writeAt_append _ [lenByte as.length]
        [ipoptNop, optType type] [lenByte (as ++ [a]).length] _ rfl)
    · rw [length_writeAt (by rw [hlen, a.length_eq]; omega), hlen, List.length_singleton]
      omega
  have hcount : ¬9 < (formed type as).ocnt := Nat.not_lt.mpr (Nat.le_of_lt_succ h)
  have hoptr : 4 + 4 * as.length + 4 = 4 + 4 * (as.length + 1) := by omega
  have hret : 3 + (as.length + 1) * 4 + 1 = 4 + 4 * (as.length + 1) := by omega
  rw [inetSrcrtAdd, if_neg hcount]
  simp only [formed, haddr, bind, Except.bind, hlenptr, pure, Except.pure, List.length_append,
    List.length_singleton, hoptr, hret]

/-- **There is no room for an eleventh address.** -/
theorem add_full (h : 10 ≤ as.length) (a : InAddr) :
    inetSrcrtAdd (formed type as) a = .error .quit :=
  if_pos (by exact h)

theorem addAll_formed : ∀ (bs as : List InAddr) (len : ℕ), as.length + bs.length ≤ 10 →
    addAll (formed type as) len bs = .ok (formed type (as ++ bs),
      if bs = [] then len else 4 + 4 * (as.length + bs.length)) := by
  intro bs
  induction bs with
  | nil => intro as len _; rw [addAll, List.append_nil, if_pos rfl]
  | cons b bs ih =>
    intro as len hroom
    rw [List.length_cons] at hroom
    have hnext := ih (as ++ [b]) (4 + 4 * (as.length + 1))
      (by rw [List.length_append, List.length_singleton]; omega)
    simp only [addAll, add_formed (show as.length < 10 by omega), bind, Except.bind]
    rw [hnext, List.append_assoc, List.singleton_append, if_neg (List.cons_ne_nil b bs)]
    cases bs with
    | nil => rfl
    | cons c cs =>
      rw [if_neg (List.cons_ne_nil c cs)]
      simp only [List.length_append, List.length_cons, List.length_nil]
      congr 3
      omega

/-! ### What is printed -/

/-- **The loop prints the addresses**: the length is one less than that of the addresses, and
is below zero behind the last of them. -/
theorem printHops_addrs : ∀ (as : List InAddr) (fuel : ℕ), as.length ≤ fuel →
    printHops fuel (4 * as.length - 1) (addrs as ++ rest) = some (as.map InAddr.bytes) := by
  intro as
  induction as with
  | nil =>
    intro fuel _
    cases fuel with
    | zero => rfl
    | succ fuel => rfl
  | cons a as ih =>
    intro fuel hfuel
    obtain ⟨fuel, rfl⟩ : ∃ n, fuel = n + 1 := ⟨fuel - 1, by simp at hfuel; omega⟩
    have hsplit : addrs (a :: as) ++ rest = a.bytes ++ (addrs as ++ rest) := by
      rw [addrs, List.map_cons, List.flatten_cons, List.append_assoc, ← addrs]
    have hlen : ((4 * (a :: as).length : ℕ) : ℤ) - 1 - 4 = 4 * as.length - 1 := by
      rw [List.length_cons]
      omega
    have hpos : (0 : ℤ) < ((4 * (a :: as).length : ℕ) : ℤ) - 1 := by
      rw [List.length_cons]
      omega
    have hroom : ¬(a.bytes ++ (addrs as ++ rest)).length < 4 := by
      rw [List.length_append, a.length_eq]
      omega
    have hrest := ih fuel (by simpa using hfuel)
    rw [hsplit, printHops]
    push_cast at hlen hpos
    rw [if_pos hpos, if_neg hroom, hlen, List.drop_left' a.length_eq, hrest,
      List.take_left' a.length_eq]
    rfl

theorem skipNops_route (type : ℤ) (as : List InAddr) : skipNops (route type as) =
    some (optType type, [lenByte as.length, 4] ++
      (addrs as ++ List.replicate (40 - 4 * as.length) 0)) := by
  have hne : optType type ≠ ipoptNop := by
    unfold optType
    split <;> decide
  rw [route, List.cons_append, skipNops, if_pos rfl, List.cons_append, skipNops, if_neg hne]

/-- **The option is printed as it was formed.** -/
theorem print_route (hpos : 1 ≤ as.length) (hle : as.length ≤ 10) (hop : InAddr) (n : ℤ) :
    inetSrcrtPrint (hop.bytes ++ route type as) n =
      some (.route (optType type) hop.bytes (as.map InAddr.bytes)) := by
  have hlong : ¬(hop.bytes ++ route type as).length < 4 := by
    rw [List.length_append, hop.length_eq]
    omega
  have htype : optType type = ipoptLsrr ∨ optType type = ipoptSsrr := by
    unfold optType
    split
    · exact .inr rfl
    · exact .inl rfl
  have hbyte : (lenByte as.length).toNat = 3 + 4 * as.length := by
    rw [lenByte, if_neg (by omega), UInt8.toNat_ofNat']
    omega
  have hlen : ((lenByte as.length).toNat : ℤ) - 4 = 4 * as.length - 1 := by
    rw [hbyte]
    omega
  rw [inetSrcrtPrint, if_neg hlong, List.drop_left' hop.length_eq, skipNops_route,
    List.take_left' hop.length_eq]
  simp only [htype, if_true, List.cons_append, List.nil_append, hlen]
  rw [printHops_addrs as _ (by omega)]
  rfl

end Route

/-- **The option goes round**: it is formed within the buffer, an eleventh address is turned
down, and what is printed is the first hop and the addresses. -/
theorem srcrt_roundTrip (type : ℤ) (as : List InAddr) (hpos : 1 ≤ as.length)
    (hle : as.length ≤ 10) :
    ∃ s, (do let s ← inetSrcrtInit type; addAll s 0 as) = .ok (s, 4 + 4 * as.length) ∧
      s.mem = [ipoptNop, if type ≠ 0 then ipoptSsrr else ipoptLsrr,
        UInt8.ofNat (3 + 4 * as.length), 4] ++
          ((as.map InAddr.bytes).flatten ++ List.replicate (40 - 4 * as.length) 0) ∧
      s.mem.length = 44 ∧ 4 + 4 * as.length ≤ 44 ∧
      (as.length = 10 → ∀ a, inetSrcrtAdd s a = .error .quit) ∧
      ∀ (hop : InAddr) (n : ℤ), inetSrcrtPrint (hop.bytes ++ s.mem) n =
        some (.route (if type ≠ 0 then ipoptSsrr else ipoptLsrr) hop.bytes
          (as.map InAddr.bytes)) := by
  refine ⟨formed type as, ?_, ?_, length_route hle, by omega, fun h => add_full (by omega),
    print_route hpos hle⟩
  · have hall := @addAll_formed type as [] 0 (by simpa using hle)
    have hne : as ≠ [] := List.ne_nil_of_length_pos hpos
    simp only [init_eq, bind, Except.bind, hall, List.nil_append, hne, if_false, List.length_nil,
      Nat.zero_add]
  · rw [formed, route, lenByte, if_neg (by omega)]
    rfl

theorem srcrt_roundTrip_one : 1 ≤ [InAddr.mk [127, 0, 0, 1] rfl].length ∧
    [InAddr.mk [127, 0, 0, 1] rfl].length ≤ 10 ∧
    ∃ s, (do let s ← inetSrcrtInit 1; addAll s 0 [InAddr.mk [127, 0, 0, 1] rfl]) = .ok (s, 8) ∧
      s.mem = [1, 137, 7, 4, 127, 0, 0, 1] ++ List.replicate 36 0 := by
  obtain ⟨s, hadd, hmem, -⟩ := srcrt_roundTrip 1 [InAddr.mk [127, 0, 0, 1] rfl] (by decide)
    (by decide)
  exact ⟨by decide, by decide, s, hadd, hmem⟩

end TcpIp.Ipopts
