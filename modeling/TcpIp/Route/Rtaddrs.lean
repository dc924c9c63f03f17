import TcpIp.Route.Dump

/-!
# Where the addresses of a message are

Behind the header of a routing message stand socket address structures, one for each bit that
is set in a member of the header, in the order of the bits.  `get_rtaddrs` finds them by their
lengths: each of them is followed by the next one at the next multiple of the size of a `u_long`,
and one with the length zero has that size.  The function is given here for every such size
and for every number `RTAX_MAX` of bits; `TcpIp.Route.getRtaddrs` is its case for eight bytes and
eight bits.

## Main definitions

* `getRtaddrs` — the array `rti_info`, and where the scan has ended.
* `Fills` — what a structure occupies.
* `block` — the structures one behind the other.

## Main results

* `getRtaddrs_eq` — the function finds the structures of a block.
* `rtaddrs_eq_loop` — the case that the programs of the library use.
-/

namespace TcpIp.Route.Rtaddrs

open Bytes

/-! ### The function -/

section Function

variable (size : ℕ) (mem : List UInt8)

/-- `ROUNDUP(a, size)`. -/
def roundup (a : ℕ) : ℕ := if a &&& (size - 1) ≠ 0 then 1 + (a ||| (size - 1)) else a

/-- `NEXT_SA(ap)`, with `size` for `sizeof(u_long)`. -/
def nextSa (ap : ℕ) : ℕ :=
  ap + if saLen mem ap ≠ 0 then roundup size (saLen mem ap) else size

/-- The loop over the `n` bits from `i` on: `rti_info` from there on, and `sa` at the end. -/
def loop (addrs : BitVec 32) : ℕ → ℕ → ℕ → List (Option ℕ) × ℕ
  | 0, _, sa => ([], sa)
  | n + 1, i, sa =>
    if addrs &&& (1 <<< i) ≠ 0 then
      let r := loop addrs n (i + 1) (nextSa size mem sa)
      (some sa :: r.1, r.2)
    else
      let r := loop addrs n (i + 1) sa
      (none :: r.1, r.2)

/-- `get_rtaddrs`, with `max` for `RTAX_MAX`. -/
def getRtaddrs (max : ℕ) (addrs : BitVec 32) (sa : ℕ) : List (Option ℕ) × ℕ :=
  loop size mem addrs max 0 sa

end Function

/-! ### Blocks -/

/-- A structure with what stands behind it up to the next one: the length in its first byte is
filled up to the next multiple of `size`; a length of zero takes `size` bytes. -/
structure Fills (size : ℕ) (sa : List UInt8) : Prop where
  dvd : size ∣ sa.length
  zero : byte sa 0 = 0 → sa.length = size
  le : byte sa 0 ≤ sa.length
  lt : byte sa 0 ≠ 0 → sa.length < byte sa 0 + size

/-- What stands in a block for a bit. -/
def part (addrs : BitVec 32) (sas : ℕ → List UInt8) (i : ℕ) : List UInt8 :=
  if addrs.getLsbD i then sas i else []

/-- The structures `sas i` for the bits `i` below `n` that are set, in their order. -/
def block (addrs : BitVec 32) (sas : ℕ → List UInt8) (n : ℕ) : List UInt8 :=
  (List.range n).flatMap (part addrs sas)

/-! ### Rounding up -/

section Roundup

variable {k a : ℕ}

theorem or_mask (k a : ℕ) : a ||| (2 ^ k - 1) = 2 ^ k * (a / 2 ^ k) + (2 ^ k - 1) := by
  have hpos : 0 < 2 ^ k := Nat.two_pow_pos k
  have hlow : a % 2 ^ k ||| (2 ^ k - 1) = 2 ^ k - 1 := by
    refine Nat.eq_of_testBit_eq fun i => ?_
    rw [Nat.testBit_or, Nat.testBit_mod_two_pow, Nat.testBit_two_pow_sub_one]
    cases decide (i < k) <;> simp
  calc a ||| (2 ^ k - 1)
      = (2 ^ k * (a / 2 ^ k) ||| a % 2 ^ k) ||| (2 ^ k - 1) := by
        rw [← Nat.two_pow_add_eq_or_of_lt (Nat.mod_lt a hpos), Nat.div_add_mod]
    _ = 2 ^ k * (a / 2 ^ k) ||| (2 ^ k - 1) := by rw [Nat.or_assoc, hlow]
    _ = 2 ^ k * (a / 2 ^ k) + (2 ^ k - 1) := by
        rw [← Nat.two_pow_add_eq_or_of_lt (Nat.sub_one_lt_of_lt hpos)]

/-- **Rounding up** gives the one multiple that is at least the number and less than the next
one. -/
theorem roundup_eq {n : ℕ} (hdvd : 2 ^ k ∣ n) (hle : a ≤ n) (hlt : n < a + 2 ^ k) :
    roundup (2 ^ k) a = n := by
  have hpos : 0 < 2 ^ k := Nat.two_pow_pos k
  obtain ⟨q, rfl⟩ := hdvd
  have hdiv := Nat.div_add_mod a (2 ^ k)
  have hmod := Nat.mod_lt a hpos
  rw [roundup, or_mask, Nat.and_two_pow_sub_one_eq_mod]
  by_cases hzero : a % 2 ^ k = 0
  · -- `a` is a multiple itself
    rw [if_neg (by simpa using hzero)]
    have hq : 2 ^ k * (a / 2 ^ k) ≤ 2 ^ k * q := by omega
    have hq' : 2 ^ k * q < 2 ^ k * (a / 2 ^ k + 1) := by rw [Nat.mul_succ]; omega
    have heq : q = a / 2 ^ k :=
      Nat.le_antisymm (Nat.lt_succ_iff.mp (Nat.lt_of_mul_lt_mul_left hq'))
        (Nat.le_of_mul_le_mul_left hq hpos)
    rw [heq]
    omega
  · rw [if_pos hzero]
    have hq : 2 ^ k * (a / 2 ^ k) < 2 ^ k * q := by omega
    have hq' : 2 ^ k * q < 2 ^ k * (a / 2 ^ k + 2) := by rw [Nat.mul_add]; omega
    have heq : q = a / 2 ^ k + 1 :=
      Nat.le_antisymm (Nat.lt_succ_iff.mp (Nat.lt_of_mul_lt_mul_left hq'))
        (Nat.lt_of_mul_lt_mul_left hq)
    rw [heq, Nat.mul_succ]
    omega

end Roundup

/-! ### Finding the structures -/

section Block

variable {k : ℕ} {mem pre post sa : List UInt8} {addrs : BitVec 32} {sas : ℕ → List UInt8} {i : ℕ}

/-- The condition of the loop. -/
theorem and_one_shiftLeft (addrs : BitVec 32) (i : ℕ) :
    addrs &&& (1 <<< i) ≠ 0 ↔ addrs.getLsbD i = true := by
  have hpow : (1 <<< i : BitVec 32) = BitVec.twoPow 32 i := rfl
  rw [hpow, BitVec.and_twoPow]
  split
  · next hbit =>
    refine iff_of_true (fun hzero => ?_) hbit
    have hi : i < 32 := BitVec.lt_of_getLsbD hbit
    have hset : (BitVec.twoPow 32 i).getLsbD i = true := by simp [hi]
    rw [hzero] at hset
    simp at hset
  · next hbit => exact iff_of_false (fun hne => hne rfl) hbit

/-- A turn of the loop. -/
theorem loop_succ (size n i sa : ℕ) : loop size mem addrs (n + 1) i sa =
    ((if addrs.getLsbD i then some sa else none) ::
        (loop size mem addrs n (i + 1)
          (if addrs.getLsbD i then nextSa size mem sa else sa)).1,
      (loop size mem addrs n (i + 1)
        (if addrs.getLsbD i then nextSa size mem sa else sa)).2) := by
  rw [loop]
  by_cases hbit : addrs.getLsbD i = true
  · rw [if_pos ((and_one_shiftLeft addrs i).mpr hbit), if_pos hbit, if_pos hbit]
  · rw [if_neg (mt (and_one_shiftLeft addrs i).mp hbit), if_neg hbit, if_neg hbit]

theorem Fills.length_pos (h : Fills (2 ^ k) sa) : 0 < sa.length := by
  have hpos : 0 < 2 ^ k := Nat.two_pow_pos k
  have hle := h.le
  by_cases hzero : byte sa 0 = 0
  · rw [h.zero hzero]
    exact hpos
  · omega

/-- The next structure is behind this one. -/
theorem nextSa_eq (h : Fills (2 ^ k) sa) (hmem : mem = pre ++ (sa ++ post)) :
    nextSa (2 ^ k) mem pre.length = pre.length + sa.length := by
  have hlen : saLen mem pre.length = byte sa 0 := by
    have hat := byte_append_add pre (sa ++ post) 0
    rw [← hmem, Nat.add_zero, byte_append h.length_pos] at hat
    exact hat
  rw [nextSa, hlen]
  by_cases hzero : byte sa 0 = 0
  · rw [if_neg (by simpa using hzero), h.zero hzero]
  · rw [if_pos hzero, roundup_eq h.dvd h.le (h.lt hzero)]

/-- The loop from the bit `i` on. -/
theorem loop_eq : ∀ (n i : ℕ) (pre : List UInt8),
    mem = pre ++ ((List.range' i n).flatMap (part addrs sas) ++ post) →
    (∀ j, i ≤ j → j < i + n → addrs.getLsbD j = true → Fills (2 ^ k) (sas j)) →
    loop (2 ^ k) mem addrs n i pre.length =
      ((List.range' i n).map fun j =>
          if addrs.getLsbD j then
            some (pre.length + ((List.range' i (j - i)).flatMap (part addrs sas)).length)
          else none,
        pre.length + ((List.range' i n).flatMap (part addrs sas)).length) := by
  intro n
  induction n with
  | zero => intro i pre _ _; rfl
  | succ n ih =>
    intro i pre hmem hfills
    rw [List.range'_succ, List.flatMap_cons, List.append_assoc] at hmem
    -- the positions behind the first bit, seen from the end of what stands for it
    have hpos : ∀ j ∈ List.range' (i + 1) n,
        ((List.range' i (j - i)).flatMap (part addrs sas)).length = (part addrs sas i).length +
          ((List.range' (i + 1) (j - (i + 1))).flatMap (part addrs sas)).length := by
      intro j hj
      have hle := (List.mem_range'_1.mp hj).1
      rw [show j - i = (j - (i + 1)) + 1 by omega, List.range'_succ, List.flatMap_cons,
        List.length_append]
    have hnext := ih (i + 1) (pre ++ part addrs sas i) (by rw [List.append_assoc]; exact hmem)
      (fun j hj hlt => hfills j (by omega) (by omega))
    rw [List.length_append] at hnext
    have hsa : (if addrs.getLsbD i then nextSa (2 ^ k) mem pre.length else pre.length) =
        pre.length + (part addrs sas i).length := by
      by_cases hbit : addrs.getLsbD i = true
      · rw [part, if_pos hbit] at hmem ⊢
        rw [if_pos hbit]
        exact nextSa_eq (hfills i (Nat.le_refl i) (by omega) hbit) hmem
      · rw [part, if_neg hbit, if_neg hbit]
        rfl
    rw [loop_succ, hsa, hnext, List.range'_succ, List.map_cons, List.flatMap_cons,
      List.length_append, Nat.sub_self, Nat.add_assoc]
    refine Prod.ext (congrArg₂ List.cons rfl (List.map_congr_left fun j hj => ?_)) rfl
    rw [hpos j hj, Nat.add_assoc]

/-- **`get_rtaddrs` finds the structures of a block.** -/
theorem getRtaddrs_eq {max : ℕ} (hmem : mem = pre ++ (block addrs sas max ++ post))
    (hfills : ∀ i < max, addrs.getLsbD i = true → Fills (2 ^ k) (sas i)) :
    getRtaddrs (2 ^ k) mem max addrs pre.length =
      ((List.range max).map fun i =>
          if addrs.getLsbD i then some (pre.length + (block addrs sas i).length) else none,
        pre.length + (block addrs sas max).length) := by
  simp only [block, List.range_eq_range'] at hmem ⊢
  rw [getRtaddrs, loop_eq max 0 pre hmem fun j _ hj => hfills j (by omega)]
  simp only [Nat.sub_zero]

/-- The structure for a bit stands where it is found. -/
theorem block_split {n : ℕ} (hi : i < n) (hbit : addrs.getLsbD i = true) :
    ∃ rest, block addrs sas n = block addrs sas i ++ (sas i ++ rest) := by
  obtain ⟨m, rfl⟩ : ∃ m, n = i + (m + 1) := ⟨n - i - 1, by omega⟩
  have hsplit : List.range (i + (m + 1)) = List.range i ++ i :: List.range' (i + 1) m := by
    rw [List.range_eq_range', ← List.range'_append_1, Nat.zero_add, ← List.range'_succ,
      List.range_eq_range']
  have hpart : part addrs sas i = sas i := if_pos hbit
  refine ⟨(List.range' (i + 1) m).flatMap (part addrs sas), ?_⟩
  rw [block, hsplit, List.flatMap_append, List.flatMap_cons, hpart]
  rfl

/-- **`get_rtaddrs` recovers a block.**  For every bit that is set, `rti_info` has the position at
which the structure for that bit stands, and `NULL` otherwise; the scan ends where the block
ends. -/
theorem getRtaddrs_recovers (k max : ℕ) (addrs : BitVec 32) (sas : ℕ → List UInt8)
    (hfills : ∀ i < max, addrs.getLsbD i = true → Fills (2 ^ k) (sas i)) (pre post : List UInt8) :
    let mem := pre ++ (block addrs sas max ++ post)
    let r := getRtaddrs (2 ^ k) mem max addrs pre.length
    r.1.length = max ∧
      (∀ i < max, r.1.getD i none =
        if addrs.getLsbD i then some (pre.length + (block addrs sas i).length) else none) ∧
      (∀ i < max, ∀ p, r.1.getD i none = some p → slice mem p (sas i).length = sas i) ∧
      r.2 = pre.length + (block addrs sas max).length := by
  intro mem r
  have hr := @getRtaddrs_eq k mem pre post addrs sas max rfl hfills
  have hinfo : ∀ i < max, r.1.getD i none =
      if addrs.getLsbD i then some (pre.length + (block addrs sas i).length) else none := by
    intro i hi
    simp [r, hr, List.getD_eq_getElem?_getD, hi]
  refine ⟨by simp [r, hr], hinfo, fun i hi p hp => ?_, by simp [r, hr]⟩
  rw [hinfo i hi] at hp
  split at hp
  · next hbit =>
    obtain rfl := Option.some.inj hp
    obtain ⟨rest, hrest⟩ := @block_split addrs sas i max hi hbit
    have hmem : mem = (pre ++ block addrs sas i) ++ (sas i ++ (rest ++ post)) := by
      simp only [mem, hrest, List.append_assoc]
    rw [hmem, ← List.length_append, slice_mid]
  · cases hp

/-- An address of five bytes for the bit 1 and one with the length zero for the bit 4. -/
def twoAddrs (i : ℕ) : List UInt8 := if i = 1 then [5, 18, 1, 2, 3, 0, 0, 0] else [0, 0, 0, 0]

theorem getRtaddrs_recovers_two :
    getRtaddrs 4 (block 0x12 twoAddrs 8) 8 0x12 0 =
      ([none, some 0, none, none, some 8, none, none, none], 12) ∧
    slice (block 0x12 twoAddrs 8) 8 4 = [0, 0, 0, 0] := by
  have hfills : ∀ i < 8, (0x12 : BitVec 32).getLsbD i = true → Fills (2 ^ 2) (twoAddrs i) := by
    intro i hi hbit
    have hcases : i = 1 ∨ i = 4 := by
      revert i
      decide
    rcases hcases with rfl | rfl
    · exact ⟨by decide, by decide, by decide, by decide⟩
    · exact ⟨by decide, by decide, by decide, by decide⟩
  have h := getRtaddrs_recovers 2 8 0x12 twoAddrs hfills [] []
  refine ⟨by decide, ?_⟩
  have hslice := h.2.2.1 4 (by decide) 8 (by decide)
  simpa [twoAddrs] using hslice

end Block

/-! ### Eight bytes and eight bits -/

/-- The loop of the other modules. -/
theorem rtaddrs_eq_loop (mem : List UInt8) (addrs : ℕ) : ∀ (n i sa : ℕ), i + n ≤ 32 →
    rtaddrs mem addrs n i sa = (loop 8 mem (BitVec.ofNat 32 addrs) n i sa).1 := by
  intro n
  induction n with
  | zero => intro i sa _; rfl
  | succ n ih =>
    intro i sa hle
    have hbit : (BitVec.ofNat 32 addrs).getLsbD i = addrs.testBit i := by
      rw [BitVec.getLsbD_ofNat, decide_eq_true (by omega : i < 32), Bool.true_and]
    rw [loop_succ, rtaddrs, hbit]
    split
    · exact congrArg _ (ih (i + 1) _ (by omega))
    · exact congrArg _ (ih (i + 1) sa (by omega))

theorem getRtaddrs_eq_fst (mem : List UInt8) (addrs sa : ℕ) :
    Route.getRtaddrs mem addrs sa =
      (getRtaddrs 8 mem rtaxMax (BitVec.ofNat 32 addrs) sa).1 :=
  rtaddrs_eq_loop mem addrs rtaxMax 0 sa (by decide)

end TcpIp.Route.Rtaddrs
