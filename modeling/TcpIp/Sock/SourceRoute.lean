import TcpIp.Ipopts.SourceRoute
import TcpIp.Lib.Fallible
import TcpIp.Ping.Proc

/-!
# The source route of `sock`

Each option `-g` or `-G` of `sock` names a router; `sroute_doopt` adds its address to an IP
option in a buffer of 44 bytes, and `sroute_set` adds the destination, pads the option and
passes it to the kernel.  An address has four bytes, and the length in the option counts four for
each of them; but an address is copied with `sizeof(u_long)`, and the position is advanced by
as much.

## Main definitions

* `srouteDoopt`, `srouteSet` — the two functions.
* `setRoute` — the options of a command line, and what the kernel gets.
* `option` — what it should get.

## Main results

* `setRoute_ilp32` — with a `u_long` of four bytes the kernel gets that.
* `setRoute_iff` — otherwise it does not.
-/

namespace TcpIp.Sock.SourceRoute

open Buffer Fallible Ipopts
open Ping (Abi)

/-- An address, and the memory behind it. -/
structure Hop where
  addr : InAddr
  behind : List UInt8
  length_behind : behind.length = 4

/-- The bytes that `memcpy` with `sizeof(u_long)` copies. -/
def Hop.copied (abi : Abi) (hop : Hop) : List UInt8 :=
  (hop.addr.bytes ++ hop.behind).take abi.sizeofLong

/-- The variables of the program. -/
structure Sroute where
  /-- `sroute_opt` -/
  mem : List UInt8
  optr : ℕ
  /-- `sroute_cnt` -/
  cnt : ℕ
  deriving DecidableEq, Repr

section Functions

variable (abi : Abi)

/-- What `sroute_doopt` does at the first address. -/
def begin (s : Sroute) (strict : ℤ) : Except Stop Sroute :=
  if s.cnt = 0 then do
    let mem := List.replicate 44 0
    let mem ← store mem 0 [optType strict]
    let mem ← store mem 2 [4]
    return { s with mem, optr := 3 }
  else return s

/-- `sroute_doopt`; the name has been looked up, or is unknown. -/
def srouteDoopt (s : Sroute) (strict : ℤ) (hop : Option Hop) : Except Stop Sroute :=
  if 9 ≤ s.cnt then .error .quit
  else do
    let s ← begin s strict
    match hop with
    | none => .error .quit
    | some hop =>
      let mem ← store s.mem s.optr (hop.copied abi)
      return ⟨mem, s.optr + abi.sizeofLong, s.cnt + 1⟩

/-- The loop that pads, after at most `fuel` turns. -/
def align : ℕ → ℕ → ℕ
  | 0, optr => optr
  | fuel + 1, optr => if optr % 4 ≠ 0 then align fuel (optr + 1) else optr

/-- `sroute_set`, with the bytes that are passed to `setsockopt`. -/
def srouteSet (s : Sroute) (dest : Hop) : Except Stop (List UInt8 × Sroute) := do
  let cnt := s.cnt + 1
  let mem ← store s.mem 1 [UInt8.ofNat (3 + cnt * 4)]
  let mem ← store mem s.optr (dest.copied abi)
  let optr := align 3 (s.optr + abi.sizeofLong)
  return (mem.take optr, ⟨mem, optr, 0⟩)

/-- The options of the command line one after the other. -/
def dooptAll (s : Sroute) : List (ℤ × Hop) → Except Stop Sroute
  | [] => .ok s
  | (strict, hop) :: opts => do
    let s ← srouteDoopt abi s strict (some hop)
    dooptAll s opts

/-- The options of the command line, and what the kernel gets. -/
def setRoute (s : Sroute) (opts : List (ℤ × Hop)) (dest : Hop) : Except Stop (List UInt8) := do
  let s ← dooptAll abi s opts
  let (bytes, _) ← srouteSet abi s dest
  return bytes

end Functions

/-- What the kernel should get: the type that the first option asks for, the length, the pointer,
the addresses, the destination, and as many zeros as make the length a multiple of four. -/
def option (strict : ℤ) (hops : List InAddr) (dest : InAddr) : List UInt8 :=
  [optType strict, UInt8.ofNat (3 + 4 * (hops.length + 1)), 4] ++ (addrs (hops ++ [dest]) ++ [0])

section Route

variable {abi : Abi} {s s' : Sroute} {strict : ℤ} {hop dest : Hop} {as : List InAddr} {a : InAddr}
  {mem mem' bs : List UInt8} {i : ℕ} {opts : List (ℤ × Hop)}

theorem length_copied (abi : Abi) (hop : Hop) : (hop.copied abi).length = abi.sizeofLong := by
  have haddr := hop.addr.length_eq
  have hbehind := hop.length_behind
  rw [Hop.copied, List.length_take, List.length_append, haddr, hbehind]
  cases abi <;> rfl

theorem copied_ilp32 (hop : Hop) : hop.copied .ilp32 = hop.addr.bytes :=
  List.take_left' hop.addr.length_eq

/-- What the loop that pads does. -/
theorem align_spec (optr : ℕ) :
    align 3 optr % 4 = 0 ∧ optr ≤ align 3 optr ∧ align 3 optr < optr + 4 := by
  simp only [align]
  split
  · split
    · split <;> omega
    · omega
  · omega

/-! ### A `u_long` of four bytes -/

/-- The buffer when some addresses have been added. -/
def formed (strict : ℤ) (len : UInt8) (as : List InAddr) : List UInt8 :=
  [optType strict, len, 4] ++ (addrs as ++ List.replicate (41 - 4 * as.length) 0)

theorem length_formed {len : UInt8} (h : as.length ≤ 10) : (formed strict len as).length = 44 := by
  simp only [formed, List.length_append, length_addrs, List.length_replicate, List.length_cons,
    List.length_nil]
  omega

/-- **An address is stored behind the others.** -/
theorem store_formed {len : UInt8} (h : as.length ≤ 9) :
    store (formed strict len as) (3 + 4 * as.length) a.bytes =
      .ok (formed strict len (as ++ [a])) := by
  have hat : 3 + 4 * as.length = ([optType strict, len, 4] ++ addrs as).length := by
    rw [List.length_append, length_addrs]
    rfl
  have hone : addrs [a] = a.bytes := by simp [addrs]
  have hroom : 41 - 4 * as.length - a.bytes.length = 41 - 4 * (as ++ [a]).length := by
    rw [a.length_eq, List.length_append, List.length_singleton]
    omega
  rw [store_eq_ok, length_formed (by omega), a.length_eq]
  refine ⟨by omega, ?_⟩
  rw [formed, formed, hat, ← List.append_assoc _ (addrs as), writeAt_replicate, hroom, addrs_append,
    hone]
  simp only [List.append_assoc]

theorem begin_first (h : s.cnt = 0) : begin s strict = .ok ⟨formed strict 0 [], 3, 0⟩ := by
  rw [begin, if_pos h]
  have hcnt : s.cnt = 0 := h
  simp only [hcnt]
  rfl

theorem doopt_first (h : s.cnt = 0) : srouteDoopt .ilp32 s strict (some hop) =
    .ok ⟨formed strict 0 [hop.addr], 7, 1⟩ := by
  have hstore := @store_formed strict [] hop.addr 0 (by simp)
  rw [srouteDoopt, if_neg (by omega), begin_first h]
  simp only [bind, Except.bind, copied_ilp32]
  simp only [List.length_nil, Nat.mul_zero, Nat.add_zero, List.nil_append] at hstore
  rw [hstore]
  rfl

theorem doopt_next {strict' : ℤ} (hpos : 1 ≤ as.length) (h : as.length < 9) :
    srouteDoopt .ilp32 ⟨formed strict 0 as, 3 + 4 * as.length, as.length⟩ strict' (some hop) =
      .ok ⟨formed strict 0 (as ++ [hop.addr]), 3 + 4 * (as.length + 1), as.length + 1⟩ := by
  have hne : ¬ as.length = 0 := by omega
  have hlt : ¬ 9 ≤ as.length := by omega
  have hoptr : 3 + 4 * as.length + 4 = 3 + 4 * (as.length + 1) := by omega
  simp only [srouteDoopt, begin, if_neg hne, if_neg hlt, bind, Except.bind, pure, Except.pure,
    copied_ilp32, @store_formed strict as hop.addr 0 (by omega), Abi.sizeofLong, hoptr]

theorem dooptAll_formed : ∀ (opts : List (ℤ × Hop)) (as : List InAddr), 1 ≤ as.length →
    as.length + opts.length ≤ 9 →
    dooptAll .ilp32 ⟨formed strict 0 as, 3 + 4 * as.length, as.length⟩ opts =
      .ok ⟨formed strict 0 (as ++ opts.map fun o => o.2.addr),
        3 + 4 * (as.length + opts.length), as.length + opts.length⟩ := by
  intro opts
  induction opts with
  | nil => intro as _ _; simp [dooptAll]
  | cons o opts ih =>
    intro as hpos hroom
    rw [List.length_cons] at hroom
    have hlen : (as ++ [o.2.addr]).length = as.length + 1 := List.length_append
    have hih := ih (as ++ [o.2.addr]) (by omega) (by omega)
    rw [hlen] at hih
    simp only [dooptAll, doopt_next hpos (show as.length < 9 by omega), bind, Except.bind]
    rw [hih]
    simp only [List.map_cons, List.append_assoc, List.singleton_append, List.length_cons]
    have hcount : as.length + 1 + opts.length = as.length + (opts.length + 1) := by omega
    rw [hcount]

theorem set_formed (h : as.length ≤ 9) :
    (srouteSet .ilp32 ⟨formed strict 0 as, 3 + 4 * as.length, as.length⟩ dest).map Prod.fst =
      .ok (option strict as dest.addr) := by
  have hlen : store (formed strict 0 as) 1 [UInt8.ofNat (3 + (as.length + 1) * 4)] =
      .ok (formed strict (UInt8.ofNat (3 + 4 * (as.length + 1))) as) := by
    rw [store_eq_ok, length_formed (by omega), Nat.mul_comm]
    refine ⟨by simp, ?_⟩
    symm
    exact @writeAt_append _ [0] [optType strict] [UInt8.ofNat (3 + 4 * (as.length + 1))] _ rfl
  have halign : align 3 (3 + 4 * as.length + 4) = 4 * (as.length + 2) := by
    have := align_spec (3 + 4 * as.length + 4)
    omega
  have hsplit : formed strict (UInt8.ofNat (3 + 4 * (as.length + 1))) (as ++ [dest.addr]) =
      option strict as dest.addr ++ List.replicate (40 - 4 * (as.length + 1)) 0 := by
    have hzeros : 41 - 4 * (as ++ [dest.addr]).length = 1 + (40 - 4 * (as.length + 1)) := by
      rw [List.length_append, List.length_singleton]
      omega
    rw [formed, option, hzeros, List.replicate_add]
    simp only [List.append_assoc]
    rfl
  have hoption : (option strict as dest.addr).length = 4 * (as.length + 2) := by
    simp only [option, List.length_append, length_addrs, List.length_cons, List.length_nil]
    omega
  simp only [srouteSet, hlen, bind, Except.bind, copied_ilp32, store_formed h, pure, Except.pure,
    Except.map, Abi.sizeofLong, halign]
  rw [hsplit, ← hoption, List.take_left]

/-- **With a `u_long` of four bytes the kernel gets what it should.** -/
theorem setRoute_ilp32 (hs : s.cnt = 0) (hlen : opts.length ≤ 8) :
    setRoute .ilp32 s ((strict, hop) :: opts) dest =
      .ok (option strict (hop.addr :: opts.map fun o => o.2.addr) dest.addr) := by
  have hall := @dooptAll_formed strict opts [hop.addr] (by simp) (by simp; omega)
  have hcount : ([hop.addr] ++ opts.map fun o => o.2.addr).length = 1 + opts.length := by
    simp
    omega
  have hset := @set_formed strict dest ([hop.addr] ++ opts.map fun o => o.2.addr) (by omega)
  rw [hcount] at hset
  simp only [List.length_singleton, Nat.mul_one, Nat.reduceAdd] at hall
  simp only [setRoute, dooptAll, doopt_first hs, bind, Except.bind, hall]
  cases hcase : srouteSet .ilp32 ⟨formed strict 0 ([hop.addr] ++ opts.map fun o => o.2.addr),
      3 + 4 * (1 + opts.length), 1 + opts.length⟩ dest with
  | error e => rw [hcase] at hset; cases hset
  | ok r =>
    rw [hcase] at hset
    exact hset

/-! ### Any size -/

/-- The buffer and the position when some addresses have been added. -/
structure Shape (abi : Abi) (s : Sroute) : Prop where
  length_mem : s.mem.length = 44
  optr_eq : s.optr = 3 + abi.sizeofLong * s.cnt

theorem begin_shape (h : s.cnt = 0 ∨ Shape abi s) {s' : Sroute} (hs : begin s strict = .ok s') :
    Shape abi s' ∧ s'.cnt = s.cnt := by
  by_cases hcnt : s.cnt = 0
  · rw [begin_first hcnt, Except.ok.injEq] at hs
    subst hs
    exact ⟨⟨length_formed (by simp), rfl⟩, hcnt.symm⟩
  · rw [begin, if_neg hcnt] at hs
    cases hs
    exact ⟨h.resolve_left hcnt, rfl⟩

theorem length_store (h : store mem i bs = .ok mem') : mem'.length = mem.length := by
  obtain ⟨hle, rfl⟩ := store_eq_ok.mp h
  exact length_writeAt hle

theorem doopt_shape (h : s.cnt = 0 ∨ Shape abi s)
    (hs : srouteDoopt abi s strict (some hop) = .ok s') : Shape abi s' ∧ s'.cnt = s.cnt + 1 := by
  unfold srouteDoopt at hs
  split at hs
  · cases hs
  · obtain ⟨t, ht, hs⟩ := bind_eq_ok.mp hs
    obtain ⟨hshape, hcnt⟩ := begin_shape h ht
    obtain ⟨mem, hmem, hs⟩ := bind_eq_ok.mp hs
    cases hs
    refine ⟨⟨(length_store hmem).trans hshape.length_mem, ?_⟩, by rw [← hcnt]⟩
    show t.optr + abi.sizeofLong = 3 + abi.sizeofLong * (t.cnt + 1)
    rw [hshape.optr_eq, Nat.mul_add]
    omega

theorem dooptAll_shape : ∀ (opts : List (ℤ × Hop)) {s s' : Sroute}, Shape abi s →
    dooptAll abi s opts = .ok s' → Shape abi s' ∧ s'.cnt = s.cnt + opts.length := by
  intro opts
  induction opts with
  | nil =>
    intro s s' hshape hs
    cases hs
    exact ⟨hshape, rfl⟩
  | cons o opts ih =>
    intro s s' hshape hs
    obtain ⟨t, ht, hs⟩ := bind_eq_ok.mp hs
    obtain ⟨hshape', hcnt⟩ := doopt_shape (.inr hshape) ht
    obtain ⟨hshape'', hcnt'⟩ := ih hshape' hs
    refine ⟨hshape'', ?_⟩
    rw [hcnt', hcnt, List.length_cons]
    omega

/-- How many bytes the kernel gets: the addresses and the destination have fitted in. -/
theorem length_setRoute (hs : s.cnt = 0) {bytes : List UInt8}
    (h : setRoute abi s ((strict, hop) :: opts) dest = .ok bytes) :
    bytes.length = align 3 (3 + abi.sizeofLong * (opts.length + 2)) := by
  obtain ⟨t, ht, h⟩ := bind_eq_ok.mp h
  obtain ⟨t₁, ht₁, ht⟩ := bind_eq_ok.mp ht
  obtain ⟨hshape₁, hcnt₁⟩ := doopt_shape (.inl hs) ht₁
  obtain ⟨hshape, hcnt⟩ := dooptAll_shape opts hshape₁ ht
  obtain ⟨r, hr, h⟩ := bind_eq_ok.mp h
  obtain ⟨mem₁, hmem₁, hr⟩ := bind_eq_ok.mp hr
  obtain ⟨mem₂, hmem₂, hr⟩ := bind_eq_ok.mp hr
  cases hr
  cases h
  have hlen₁ := (length_store hmem₁).trans hshape.length_mem
  have hlen₂ := (length_store hmem₂).trans hlen₁
  -- the destination has been stored
  obtain ⟨hroom, -⟩ := store_eq_ok.mp hmem₂
  rw [length_copied, hlen₁] at hroom
  have hoptr : t.optr + abi.sizeofLong = 3 + abi.sizeofLong * (opts.length + 2) := by
    rw [hshape.optr_eq, hcnt, hcnt₁, hs, Nat.mul_add, Nat.mul_add, Nat.mul_add]
    omega
  rw [hoptr] at hroom
  have halign := align_spec (3 + abi.sizeofLong * (opts.length + 2))
  rw [hoptr, List.length_take, hlen₂]
  omega

end Route

/-- **When the option is well formed.**  For up to nine options of the command line, the bytes that
are passed to the kernel are the type, the length, the pointer, the addresses and the
destination, padded, and every store is within the buffer, exactly if a `u_long` has four
bytes. -/
theorem setRoute_iff (abi : Abi) (s : Sroute) (hs : s.cnt = 0) (strict : ℤ) (hop : Hop)
    (opts : List (ℤ × Hop)) (hlen : opts.length ≤ 8) (dest : Hop) :
    setRoute abi s ((strict, hop) :: opts) dest =
        .ok (option strict (hop.addr :: opts.map fun o => o.2.addr) dest.addr) ↔
      abi.sizeofLong = 4 := by
  cases abi with
  | ilp32 => exact iff_of_true (setRoute_ilp32 hs hlen) rfl
  | lp64 =>
    refine iff_of_false (fun h => ?_) (by decide)
    -- the number of bytes is not the right one
    have hbytes := length_setRoute hs h
    have halign := align_spec (3 + Abi.lp64.sizeofLong * (opts.length + 2))
    simp only [option, List.length_append, length_addrs, List.length_cons, List.length_nil,
      List.length_map, Abi.sizeofLong] at hbytes halign
    omega

/-- The address 10.0.0.`n`, with some bytes behind it. -/
def hopTo (n : UInt8) : Hop := ⟨⟨[10, 0, 0, n], rfl⟩, [99, 99, 99, 99], rfl⟩

theorem setRoute_iff_ilp32 :
    setRoute .ilp32 ⟨[], 0, 0⟩ [(0, hopTo 1)] (hopTo 2) =
      .ok [131, 11, 4, 10, 0, 0, 1, 10, 0, 0, 2, 0] :=
  (setRoute_iff .ilp32 ⟨[], 0, 0⟩ rfl 0 (hopTo 1) [] (by decide) (hopTo 2)).mpr rfl

/-- With a `u_long` of eight bytes what stands behind an address gets into the option, which is then
longer than its length says, and five routers do not fit into the buffer. -/
theorem setRoute_lp64 :
    setRoute .lp64 ⟨[], 0, 0⟩ [(0, hopTo 1)] (hopTo 2) =
        .ok [131, 11, 4, 10, 0, 0, 1, 99, 99, 99, 99, 10, 0, 0, 2, 99, 99, 99, 99, 0] ∧
      setRoute .lp64 ⟨[], 0, 0⟩
        [(0, hopTo 1), (0, hopTo 2), (0, hopTo 3), (0, hopTo 4), (0, hopTo 5)] (hopTo 6) =
        .error .overrun := by
  decide

end TcpIp.Sock.SourceRoute
