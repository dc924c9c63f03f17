import TcpIp.Ipopts.SourceRoute
import TcpIp.Lib.Peek

/-!
# What is read of the received options

`inet_srcrt_print` gets the options that have come in with a connection, and their length.
It does not look at the length: the loop over the options that do nothing goes on until it
finds something else, and the loop over the addresses is driven by the length byte that stands
in the option.  Behind the options the buffer, and the memory behind it, hold whatever they held
before.  Here the function is a program that reads the memory byte by byte, so that it can be
asked whether it stays within the options.

## Main definitions

* `Reads.inetSrcrtPrint` — the function.
* `Stays` — it ends, and has looked at the options only.
* `Proper` — the options hold what the bytes in them announce.

## Main results

* `run_inetSrcrtPrint` — the program prints what the function of `TcpIp.Ipopts.SourceRoute` does.
* `stays_iff_proper` — the function stays within the options **exactly if** they are proper.
-/

namespace TcpIp.Ipopts

open Peek (Within run)

namespace Reads

/-- The loop over the options that do nothing: the byte that ended it, and the position behind.
The value is `none` if it has not ended after `fuel` turns. -/
def skipNops : ℕ → ℕ → Peek (Option (UInt8 × ℕ))
  | 0, _ => return none
  | fuel + 1, ptr => do
    let c ← Peek.byte ptr
    if UInt8.ofNat c = ipoptNop then skipNops fuel (ptr + 1)
    else return some (UInt8.ofNat c, ptr + 1)

/-- The loop over the addresses. -/
def printHops : ℕ → ℤ → ℕ → Peek (Option (List (List UInt8)))
  | 0, len, _ => return if 0 < len then none else some []
  | fuel + 1, len, ptr =>
    if 0 < len then do
      let addr ← Peek.slice ptr 4
      let hops ← printHops fuel (len - 4) (ptr + 4)
      return hops.map (addr :: ·)
    else return some []

/-- The part of the function behind the type of a source route. -/
def printRoute (fuel : ℕ) (c : UInt8) (hop1 : List UInt8) (ptr : ℕ) : Peek (Option Printed) := do
  let l ← Peek.byte ptr
  let len : ℤ := l - 4
  -- the pointer behind the length is skipped
  let hops ← printHops fuel len (ptr + 2)
  return hops.map (.route c hop1)

/-- `inet_srcrt_print`. -/
def inetSrcrtPrint (fuel : ℕ) : Peek (Option Printed) := do
  let hop1 ← Peek.slice 0 4
  let skipped ← skipNops fuel 4
  match skipped with
  | none => return none
  | some (c, ptr) =>
    if c = ipoptLsrr ∨ c = ipoptSsrr then printRoute fuel c hop1 ptr
    else return some (.other c)

end Reads

/-- The function ends, and has looked at the first `n` bytes of the memory only. -/
def Stays (n : ℕ) (mem : List UInt8) : Prop :=
  ∃ fuel, (run mem (Reads.inetSrcrtPrint fuel)).isSome ∧ Within n mem (Reads.inetSrcrtPrint fuel)

/-- Behind the first address there is an option that does something; if it is a source route,
its length is there, and so are the pointer and the addresses, if the length announces any. -/
def Proper (opts : List UInt8) : Prop :=
  match skipNops (opts.drop 4) with
  | none => False
  | some (c, ptr) =>
    c = ipoptLsrr ∨ c = ipoptSsrr →
      match ptr with
      | [] => False
      | l :: ptr => 4 < l.toNat → 1 + 4 * ((l.toNat - 1) / 4) ≤ ptr.length

section Reads

variable {msg rest : List UInt8} {c : UInt8} {fuel ptr p q n : ℕ}

/-! ### The options that do nothing -/

theorem ofNat_byte (h : p < msg.length) : UInt8.ofNat (Bytes.byte msg p) = msg.get ⟨p, h⟩ := by
  rw [Bytes.byte, List.getD_eq_getElem?_getD, List.getElem?_eq_getElem h]
  simp

theorem drop_eq_cons (h : p < msg.length) : msg.drop p = msg.get ⟨p, h⟩ :: msg.drop (p + 1) :=
  List.drop_eq_getElem_cons h

/-- Where the loop ends within the options, it has found what the function on lists finds. -/
theorem skipNops_sound : ∀ (fuel p : ℕ), Within msg.length msg (Reads.skipNops fuel p) →
    run msg (Reads.skipNops fuel p) = some (c, q) →
    skipNops (msg.drop p) = some (c, msg.drop q) ∧ q ≤ msg.length := by
  intro fuel
  induction fuel with
  | zero => intro p _ hrun; simp [Reads.skipNops] at hrun
  | succ fuel ih =>
    intro p hwithin hrun
    simp only [Reads.skipNops, Peek.within_bind, Peek.run_bind, Peek.run_byte,
      Peek.within_byte] at hwithin hrun
    obtain ⟨hp, hrest⟩ := hwithin
    rw [ofNat_byte hp] at hrest hrun
    rw [drop_eq_cons hp, skipNops]
    split at hrun
    · next hnop =>
      rw [if_pos hnop] at hrest ⊢
      exact ih (p + 1) hrest hrun
    · next hnop =>
      rw [if_neg hnop]
      rw [Peek.run_pure, Option.some.injEq, Prod.mk.injEq] at hrun
      obtain ⟨rfl, rfl⟩ := hrun
      exact ⟨rfl, hp⟩

/-- What the function on lists finds, the loop finds within the options. -/
theorem skipNops_complete : ∀ (fuel p : ℕ) {tail : List UInt8}, msg.length ≤ p + fuel →
    skipNops (msg.drop p) = some (c, tail) →
    ∃ q, tail = msg.drop q ∧ Within msg.length msg (Reads.skipNops fuel p) ∧
      run msg (Reads.skipNops fuel p) = some (c, q) := by
  intro fuel
  induction fuel with
  | zero =>
    intro p tail hfuel hskip
    rw [List.drop_eq_nil_of_le (by omega), skipNops] at hskip
    cases hskip
  | succ fuel ih =>
    intro p tail hfuel hskip
    rcases Nat.lt_or_ge p msg.length with hp | hp
    · rw [drop_eq_cons hp, skipNops] at hskip
      simp only [Reads.skipNops, Peek.within_bind, Peek.run_bind, Peek.run_byte, Peek.within_byte,
        ofNat_byte hp, hp, true_and]
      split at hskip
      · next hnop =>
        simp only [if_pos hnop]
        exact ih (p + 1) (by omega) hskip
      · next hnop =>
        simp only [if_neg hnop]
        cases hskip
        exact ⟨p + 1, rfl, Peek.within_pure _, Peek.run_pure _⟩
    · rw [List.drop_eq_nil_of_le hp, skipNops] at hskip
      cases hskip

/-! ### The addresses -/

/-- The loop ends when the length that was announced is used up. -/
theorem printHops_isSome : ∀ (fuel : ℕ) (len : ℤ) (ptr : ℕ),
    (run msg (Reads.printHops fuel len ptr)).isSome ↔ len ≤ 4 * fuel := by
  intro fuel
  induction fuel with
  | zero =>
    intro len ptr
    simp only [Reads.printHops, Peek.run_pure]
    split <;> simp <;> omega
  | succ fuel ih =>
    intro len ptr
    rw [Reads.printHops]
    split
    · rw [Peek.run_bind, Peek.run_bind, Peek.run_pure, Option.isSome_map, ih]
      push_cast
      omega
    · simp
      omega

/-- How far the loop looks. -/
theorem printHops_within : ∀ (fuel : ℕ) (len : ℤ) (ptr : ℕ), len ≤ 4 * fuel →
    (Within n msg (Reads.printHops fuel len ptr) ↔ (0 < len → ptr + 4 * ((len + 3) / 4) ≤ n)) := by
  intro fuel
  induction fuel with
  | zero =>
    intro len ptr hlen
    refine iff_of_true (Peek.within_pure _) ?_
    omega
  | succ fuel ih =>
    intro len ptr hlen
    rw [Reads.printHops]
    split
    · next hpos =>
      rw [Peek.within_bind, Peek.within_bind, Peek.within_slice (by omega),
        ih (len - 4) (ptr + 4) (by push_cast at hlen; omega), and_iff_left (Peek.within_pure _)]
      omega
    · next hpos => exact iff_of_true (Peek.within_pure _) fun h => absurd h hpos

/-- What the function on lists prints, the loop prints. -/
theorem printHops_complete : ∀ (fuel fuel' : ℕ) (len : ℤ) (ptr : ℕ) {hops : List (List UInt8)},
    fuel ≤ fuel' → printHops fuel len (msg.drop ptr) = some hops →
    run msg (Reads.printHops fuel' len ptr) = some hops := by
  intro fuel
  induction fuel with
  | zero =>
    intro fuel' len ptr hops _ h
    rw [printHops] at h
    split at h
    · cases h
    · next hpos =>
      cases fuel' with
      | zero => simpa [Reads.printHops, hpos] using h
      | succ fuel' => simpa [Reads.printHops, hpos] using h
  | succ fuel ih =>
    intro fuel' len ptr hops hfuel h
    obtain ⟨fuel', rfl⟩ : ∃ n, fuel' = n + 1 := ⟨fuel' - 1, by omega⟩
    rw [printHops] at h
    rw [Reads.printHops]
    split at h
    · next hpos =>
      split at h
      · cases h
      · obtain ⟨tail, htail, rfl⟩ := Option.map_eq_some_iff.mp h
        rw [List.drop_drop] at htail
        rw [if_pos hpos, Peek.run_bind, Peek.run_bind, ih fuel' _ _ (by omega) htail]
        rfl
    · next hpos =>
      rw [if_neg hpos]
      exact h

/-! ### The function -/

/-- **The program prints what the function on lists prints.** -/
theorem run_inetSrcrtPrint {len : ℤ} {r : Printed} (h : inetSrcrtPrint msg len = some r) :
    ∃ fuel, run msg (Reads.inetSrcrtPrint fuel) = some r := by
  unfold inetSrcrtPrint at h
  split at h
  · cases h
  · cases hskip : skipNops (msg.drop 4) with
    | none => simp [hskip] at h
    | some found =>
      obtain ⟨c, tail⟩ := found
      obtain ⟨q, rfl, -, hrun⟩ := skipNops_complete (msg.length + 256) 4 (by omega) hskip
      refine ⟨msg.length + 256, ?_⟩
      simp only [hskip] at h
      simp only [Reads.inetSrcrtPrint, Peek.run_bind, hrun]
      split at h
      · next hc =>
        rw [if_pos hc]
        -- the length and the pointer are there
        match hq : msg.drop q with
        | [] => simp [hq] at h
        | [l] => simp [hq] at h
        | l :: ptr :: rest =>
          simp only [hq] at h
          obtain ⟨hops, hhops, rfl⟩ := Option.map_eq_some_iff.mp h
          have hbyte : Bytes.byte msg q = l.toNat := by
            rw [Bytes.byte, List.getD_eq_getElem?_getD, ← List.head?_drop, hq]
            rfl
          have hrest : rest = msg.drop (q + 2) := by
            rw [← List.drop_drop, hq]
            rfl
          have hlt := l.toNat_lt
          rw [hrest] at hhops
          have hprint := printHops_complete l.toNat (msg.length + 256) _ _ (by omega) hhops
          simp only [Reads.printRoute, Peek.run_bind, Peek.run_byte, Peek.run_pure, hbyte, hprint]
          rfl
      · next hc =>
        rw [if_neg hc]
        exact h

/-- How far the function looks behind the type of a source route. -/
theorem printRoute_within {hop1 : List UInt8}
    (hfuel : (Bytes.byte msg ptr : ℤ) - 4 ≤ 4 * fuel) :
    Within msg.length msg (Reads.printRoute fuel c hop1 ptr) ↔
      match msg.drop ptr with
      | [] => False
      | l :: ptr => 4 < l.toNat → 1 + 4 * ((l.toNat - 1) / 4) ≤ ptr.length := by
  simp only [Reads.printRoute, Peek.within_bind, Peek.within_byte, Peek.run_byte,
    printHops_within fuel _ _ hfuel, and_iff_left (Peek.within_pure _)]
  rcases Nat.lt_or_ge ptr msg.length with hp | hp
  · have hbyte : Bytes.byte msg ptr = (msg.get ⟨ptr, hp⟩).toNat := by
      rw [Bytes.byte, List.getD_eq_getElem?_getD, List.getElem?_eq_getElem hp]
      rfl
    rw [drop_eq_cons hp, hbyte]
    simp only [hp, true_and, List.length_drop]
    omega
  · rw [List.drop_eq_nil_of_le hp]
    simp only [iff_false]
    omega

/-- Whether the function stays within the options does not depend on what is behind them. -/
theorem stays_append : Stays msg.length (msg ++ rest) ↔ Stays msg.length msg := by
  refine exists_congr fun fuel => ?_
  rw [Peek.within_append]
  refine and_congr_left fun hwithin => ?_
  rw [Peek.run_append _ hwithin]

theorem byte_le (msg : List UInt8) (p : ℕ) : Bytes.byte msg p ≤ 255 := by
  have := (msg.getD p 0).toNat_lt
  unfold Bytes.byte
  omega

/-- A route is printed if there is fuel for the addresses that its length announces. -/
theorem printRoute_isSome {hop1 : List UInt8} :
    (run msg (Reads.printRoute fuel c hop1 q)).isSome ↔
      (Bytes.byte msg q : ℤ) - 4 ≤ 4 * fuel := by
  simp only [Reads.printRoute, Peek.run_bind, Peek.run_byte, Peek.run_pure, Option.isSome_map]
  exact printHops_isSome ..

theorem proper_of_stays (h : Stays msg.length msg) : Proper msg := by
  obtain ⟨fuel, hsome, hwithin⟩ := h
  simp only [Reads.inetSrcrtPrint, Peek.within_bind, Peek.run_bind] at hsome hwithin
  obtain ⟨-, hskip, hroute⟩ := hwithin
  cases hrun : run msg (Reads.skipNops fuel 4) with
  | none => simp [hrun] at hsome
  | some r =>
    obtain ⟨c, q⟩ := r
    obtain ⟨hlist, -⟩ := skipNops_sound fuel 4 hskip hrun
    rw [Proper, hlist]
    intro hc
    simp only [hrun, if_pos hc] at hsome hroute
    -- the loop over the addresses has ended
    exact (printRoute_within (printRoute_isSome.mp hsome)).mp hroute

theorem stays_of_proper (h : Proper msg) : Stays msg.length msg := by
  unfold Proper at h
  cases hlist : skipNops (msg.drop 4) with
  | none => rw [hlist] at h; exact h.elim
  | some r =>
    obtain ⟨c, tail⟩ := r
    rw [hlist] at h
    -- enough for both loops
    obtain ⟨q, rfl, hskip, hrun⟩ := skipNops_complete (msg.length + 64) 4 (by omega) hlist
    have hlong : 4 ≤ msg.length := by
      by_contra hshort
      rw [List.drop_eq_nil_of_le (by omega), skipNops] at hlist
      cases hlist
    have hbyte := byte_le msg q
    have hfuel : (Bytes.byte msg q : ℤ) - 4 ≤ 4 * ((msg.length + 64 : ℕ) : ℤ) := by
      push_cast
      omega
    refine ⟨msg.length + 64, ?_, ?_⟩
    · simp only [Reads.inetSrcrtPrint, Peek.run_bind, hrun]
      split
      · exact printRoute_isSome.mpr hfuel
      · rfl
    · simp only [Reads.inetSrcrtPrint, Peek.within_bind, hrun,
        Peek.within_slice (by omega : 0 < 4)]
      refine ⟨by omega, hskip, ?_⟩
      split
      · next hc => exact (printRoute_within hfuel).mpr (h hc)
      · exact Peek.within_pure _

/-- The function stays within the options if they are all there is. -/
theorem stays_iff : Stays msg.length msg ↔ Proper msg := ⟨proper_of_stays, stays_of_proper⟩

/-- **When `inet_srcrt_print` stays within the options**, whatever there is behind them: exactly
if they hold what the bytes in them announce. -/
theorem stays_iff_proper (opts rest : List UInt8) :
    Stays opts.length (opts ++ rest) ↔ Proper opts :=
  stays_append.trans stays_iff

/-- Five bytes with nothing but an option that does nothing, and a route that announces more
addresses than there are: what is printed depends on what is behind them. -/
theorem reads_past_options :
    ¬ Stays 5 ([10, 0, 0, 1, ipoptNop] ++ [ipoptNop, 7]) ∧
      ¬ Stays 8 ([10, 0, 0, 1, ipoptLsrr, 7, 4, 10] ++ [0, 0, 2, 9]) ∧
      (run ([10, 0, 0, 1, ipoptNop] ++ [ipoptNop, 7]) (Reads.inetSrcrtPrint 8) = some (.other 7) ∧
        run ([10, 0, 0, 1, ipoptLsrr, 7, 4, 10] ++ [0, 0, 2, 9]) (Reads.inetSrcrtPrint 8) =
          some (.route ipoptLsrr [10, 0, 0, 1] [[10, 0, 0, 2]])) := by
  refine ⟨?_, ?_, by decide, by decide⟩
  · exact fun h => stays_iff.mp ((@stays_append [10, 0, 0, 1, ipoptNop] _).mp h)
  · intro h
    have hproper := stays_iff.mp ((@stays_append [10, 0, 0, 1, ipoptLsrr, 7, 4, 10] _).mp h)
    exact absurd (hproper (.inl rfl) (by decide)) (by decide)

end Reads

end TcpIp.Ipopts
