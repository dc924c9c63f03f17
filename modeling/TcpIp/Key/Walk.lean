import TcpIp.Key.Sadb

/-!
# The walk through a key management message

`print_sadb_msg` is given a message by the kernel, in which it goes from one extension to
the next by the lengths that stand in them.  It checks the length and the version of the
message, and nothing of the extensions.

## Main definitions

* `extLoop` — the loop of `print_sadb_msg`, for a number of turns.
* `Dispatched` — the loop looks at an extension that starts there.

## Main results

* `printSadbMsg_isSome_iff` — `printSadbMsg` has a value exactly if the loop ends.
* `extLoop_walks_iff` — the loop ends, and every extension header it looks at lies in the
  message, **exactly if** none of these extensions has the length zero.
-/

namespace TcpIp.Key

open Bytes Frames

variable (o : Order)

/-- The number of bytes by which the loop goes on. -/
def extStride (mem : List UInt8) (ext : ℕ) : ℕ := get o mem ext 2 * 8

/-- The loop of `print_sadb_msg`.  The value is `none` if it has not ended after `fuel`
turns. -/
def extLoop (mem : List UInt8) (msglen : ℤ) (fuel : ℕ) :
    Option (Except Empty (List Visit × ℤ)) :=
  scan (extStride o mem) (fun visits ext => .ok (visits ++ [extPrint o mem ext])) fuel 16
    (msglen - 16) []

/-- The loop looks at an extension that starts at `ext`. -/
def Dispatched (mem : List UInt8) (msglen : ℤ) (ext : ℕ) : Prop :=
  ∃ left, Comes (extStride o mem) ext left 16 (msglen - 16)

/-- What is checked in front of the loop. -/
def Checked (mem : List UInt8) (msglen : ℤ) : Prop :=
  msglen = get o mem 4 2 * 8 ∧ get o mem 0 1 = pfKeyV2

variable {o} {mem : List UInt8} {msglen : ℤ} {ext : ℕ}

instance : Decidable (Checked o mem msglen) := inferInstanceAs (Decidable (_ ∧ _))

/-- No extension ends the loop. -/
theorem ok_ne_error (visits : List Visit) (ext : ℕ) (r : Empty) :
    (.ok (visits ++ [extPrint o mem ext]) : Except Empty _) ≠ .error r := r.elim

theorem extStride_ne_zero : extStride o mem ext ≠ 0 ↔ get o mem ext 2 ≠ 0 := by
  unfold extStride
  omega

theorem extLoop_ends_iff : (∃ fuel, (extLoop o mem msglen fuel).isSome = true) ↔
    ∀ ext, Dispatched o mem msglen ext → get o mem ext 2 ≠ 0 := by
  refine (scan_isSome_iff ok_ne_error []).trans ?_
  constructor
  · rintro h ext ⟨left, hcomes⟩
    exact extStride_ne_zero.mp (h ext left hcomes)
  · intro h ext left hcomes
    exact extStride_ne_zero.mpr (h ext ⟨left, hcomes⟩)

/-- As many turns as there are bytes are enough. -/
theorem extLoop_isSome_iff : (extLoop o mem msglen msglen.toNat).isSome = true ↔
    ∃ fuel, (extLoop o mem msglen fuel).isSome = true := by
  refine ⟨fun h => ⟨_, h⟩, fun h => ?_⟩
  refine scan_isSome_of_pos ok_ne_error _ _ _ _ (by omega) fun ext left hcomes => ?_
  exact Nat.pos_of_ne_zero (extStride_ne_zero.mpr (extLoop_ends_iff.mp h ext ⟨left, hcomes⟩))

/-- **`print_sadb_msg` returns exactly if its loop ends.** -/
theorem printSadbMsg_isSome_iff (hcheck : Checked o mem msglen) :
    (printSadbMsg o mem msglen).isSome = true ↔
      ∃ fuel, (extLoop o mem msglen fuel).isSome = true := by
  unfold printSadbMsg
  rw [if_neg (not_not.mpr hcheck.1), if_neg (not_not.mpr hcheck.2)]
  simp only
  split
  · next hempty =>
    refine iff_of_true rfl ⟨0, ?_⟩
    rw [extLoop, scan, if_neg (by omega)]
    rfl
  · rw [← extLoop_isSome_iff, extLoop]
    unfold extStride
    split
    · next hscan => rw [hscan]; rfl
    · next hscan =>
      cases hres : scan (fun ext => get o mem ext 2 * 8)
          (fun visits ext => (.ok (visits ++ [extPrint o mem ext]) : Except Empty _))
          msglen.toNat 16 (msglen - 16) [] with
      | none => rfl
      | some r =>
        cases r with
        | error e => exact e.elim
        | ok r => exact absurd hres (hscan r.1 r.2)

/-- The header of an extension lies in the message: both of its ends are multiples of eight
bytes away. -/
theorem Dispatched.le_msglen (h : Dispatched o mem msglen ext) (hcheck : Checked o mem msglen) :
    (ext : ℤ) + 4 ≤ msglen := by
  obtain ⟨left, hcomes⟩ := h
  obtain ⟨hlen, -⟩ := hcheck
  have hpos := hcomes.left_pos
  have hsum := hcomes.add_left
  have hleft : (8 : ℤ) ∣ left := by
    refine hcomes.dvd_left (fun i => ?_) ?_
    · unfold extStride
      omega
    · omega
  omega

/-- **The walk is safe exactly if it does not come to an extension of length zero.** -/
theorem extLoop_walks_iff (hcheck : Checked o mem msglen) :
    ((∃ fuel, (extLoop o mem msglen fuel).isSome = true) ∧
      ∀ ext, Dispatched o mem msglen ext → (ext : ℤ) + 4 ≤ msglen) ↔
    ∀ ext, Dispatched o mem msglen ext → get o mem ext 2 ≠ 0 := by
  rw [extLoop_ends_iff]
  exact and_iff_left fun ext h => h.le_msglen hcheck

/-- A message with one extension of the length `len`. -/
def reserved (len : UInt8) : List UInt8 :=
  [2, 3, 0, 3, 3, 0, 0, 0, 0, 0, 0, 0, 0, 0, 0, 0, len, 0, 0, 0, 0, 0, 0, 0]

theorem extLoop_walks_reserved : Checked .little (reserved 1) 24 ∧
    ∀ ext, Dispatched .little (reserved 1) 24 ext → get .little (reserved 1) ext 2 ≠ 0 :=
  ⟨by decide, (extLoop_walks_iff (by decide)).mp
    ⟨⟨1, by decide⟩, fun _ h => h.le_msglen (by decide)⟩⟩

/-- The loop stays at an extension of length zero for ever. -/
theorem extLoop_stuck : Checked .little (reserved 0) 24 ∧
    ∀ fuel, extLoop .little (reserved 0) 24 fuel = none :=
  ⟨by decide, fun fuel =>
    scan_eq_none_of_zero ok_ne_error (.here (by decide)) (by decide) fuel []⟩

end TcpIp.Key
