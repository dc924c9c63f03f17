import Mathlib.Data.Int.Notation
import Mathlib.Data.List.Basic
import Mathlib.Tactic.Common

/-!
# A block that is filled from both ends

Some programs put two kinds of data into one block of memory: one kind from the start on and
the other from the end on.  Nothing is lost as long as the two do not meet.

## Main definitions

* `Span` — some bytes that follow each other.
* `Block` — how far a block is filled from either end, and the spans that have been written.
* `Sound` — all spans are within the block, and no two of them overlap.

## Main results

* `Inv.takeFront`, `Inv.takeBack` — what is taken from either end, if there is room.
* `sound_takeFront_iff`, `sound_takeBoth_iff` — without room it is not sound.
-/

namespace TwoEnded

/-! ### Spans -/

/-- `len` bytes from the position `lo` on. -/
structure Span where
  lo : ℤ
  len : ℕ
  deriving DecidableEq, Repr

namespace Span

def hi (s : Span) : ℤ := s.lo + s.len

/-- Two spans do not overlap. -/
def Apart (s t : Span) : Prop := s.hi ≤ t.lo ∨ t.hi ≤ s.lo

/-- A span is within a block of `n` bytes. -/
def Within (n : ℕ) (s : Span) : Prop := 0 ≤ s.lo ∧ s.hi ≤ n

end Span

/-! ### Blocks -/

structure Block where
  /-- Up to where the block is filled from its start on. -/
  front : ℕ
  /-- From where on the block is filled up to its end. -/
  back : ℤ
  /-- What has been written, in its order. -/
  spans : List Span
  deriving DecidableEq, Repr

namespace Block

variable {n w v : ℕ} {b : Block}

/-- A block of `n` bytes into which nothing has been written. -/
def empty (n : ℕ) : Block := ⟨0, n, []⟩

/-- `w` bytes are written behind the first part. -/
def takeFront (b : Block) (w : ℕ) : Block :=
  { b with front := b.front + w, spans := b.spans ++ [⟨b.front, w⟩] }

/-- `w` bytes are written in front of the last part. -/
def takeBack (b : Block) (w : ℕ) : Block :=
  { b with back := b.back - w, spans := b.spans ++ [⟨b.back - w, w⟩] }

/-- **Nothing is written outside of the block, or over something else.** -/
structure Sound (n : ℕ) (b : Block) : Prop where
  within : ∀ s ∈ b.spans, s.Within n
  apart : b.spans.Pairwise Span.Apart

/-- The two parts have not met. -/
structure Inv (n : ℕ) (b : Block) : Prop where
  le : (b.front : ℤ) ≤ b.back
  back_le : b.back ≤ n
  spans : ∀ s ∈ b.spans, (0 ≤ s.lo ∧ s.hi ≤ b.front) ∨ (b.back ≤ s.lo ∧ s.hi ≤ n)
  apart : b.spans.Pairwise Span.Apart
  /-- The last part starts with a span. -/
  start : b.back < n → ∃ s ∈ b.spans, s.lo = b.back ∧ 0 < s.len

theorem inv_empty (n : ℕ) : Inv n (empty n) where
  le := by simp [empty]
  back_le := Int.le_refl _
  spans := by simp [empty]
  apart := .nil
  start := fun h => absurd h (Int.lt_irrefl _)

theorem Inv.sound (h : Inv n b) : Sound n b where
  within := by
    intro s hs
    have hle := h.le
    have hback := h.back_le
    rcases h.spans s hs with ⟨hlo, hhi⟩ | ⟨hlo, hhi⟩
    · exact ⟨hlo, by omega⟩
    · exact ⟨by omega, hhi⟩
  apart := h.apart

theorem Inv.takeFront (h : Inv n b) (hroom : (b.front + w : ℤ) ≤ b.back) :
    Inv n (b.takeFront w) where
  le := by simp only [Block.takeFront]; omega
  back_le := h.back_le
  spans := by
    intro s hs
    simp only [Block.takeFront, List.mem_append, List.mem_singleton] at hs ⊢
    rcases hs with hs | rfl
    · rcases h.spans s hs with ⟨hlo, hhi⟩ | hback
      · exact .inl ⟨hlo, by omega⟩
      · exact .inr hback
    · exact .inl ⟨by simp, by simp [Span.hi]⟩
  apart := by
    refine List.pairwise_append.mpr ⟨h.apart, List.pairwise_singleton .., fun s hs t ht => ?_⟩
    rw [List.mem_singleton] at ht
    subst ht
    simp only [Span.Apart, Span.hi]
    rcases h.spans s hs with ⟨-, hhi⟩ | ⟨hlo, -⟩
    · exact .inl hhi
    · exact .inr (by omega)
  start := by
    intro hlt
    obtain ⟨s, hs, hlo⟩ := h.start hlt
    exact ⟨s, List.mem_append_left _ hs, hlo⟩

theorem Inv.takeBack (h : Inv n b) (hw : 0 < w) (hroom : (b.front + w : ℤ) ≤ b.back) :
    Inv n (b.takeBack w) where
  le := by simp only [Block.takeBack]; omega
  back_le := by
    have := h.back_le
    simp only [Block.takeBack]
    omega
  spans := by
    intro s hs
    have hback := h.back_le
    simp only [Block.takeBack, List.mem_append, List.mem_singleton] at hs ⊢
    rcases hs with hs | rfl
    · rcases h.spans s hs with hfront | ⟨hlo, hhi⟩
      · exact .inl hfront
      · exact .inr ⟨by omega, hhi⟩
    · exact .inr ⟨Int.le_refl _, by simp only [Span.hi]; omega⟩
  apart := by
    refine List.pairwise_append.mpr ⟨h.apart, List.pairwise_singleton .., fun s hs t ht => ?_⟩
    rw [List.mem_singleton] at ht
    subst ht
    simp only [Span.Apart, Span.hi]
    rcases h.spans s hs with ⟨-, hhi⟩ | ⟨hlo, -⟩
    · exact .inl (by simp only [Span.hi] at hhi; omega)
    · exact .inr (by omega)
  start := fun _ => ⟨⟨b.back - w, w⟩, by simp [Block.takeBack], rfl, hw⟩

/-- Something is taken from both ends. -/
def takeBoth (b : Block) (v w : ℕ) : Block := (b.takeBack v).takeFront w

theorem Inv.takeBoth (h : Inv n b) (hv : 0 < v) (hroom : (b.front + w : ℤ) ≤ b.back - v) :
    Inv n (b.takeBoth v w) :=
  (h.takeBack hv (by omega)).takeFront hroom

/-! ### Without room -/

/-- What has been written stays written. -/
theorem Sound.of_append {b' : Block} {l : List Span} (h : Sound n b')
    (hl : b'.spans = b.spans ++ l) : Sound n b := by
  obtain ⟨hwithin, hapart⟩ := h
  rw [hl] at hwithin hapart
  exact ⟨fun s hs => hwithin s (List.mem_append_left _ hs), (List.pairwise_append.mp hapart).1⟩

/-- If what is written behind the first part does no harm, there was room for it. -/
theorem Inv.room_of_sound (h : Inv n b) {b' : Block} {l : List Span}
    (hl : b'.spans = b.spans ++ l) (hmem : ⟨b.front, w⟩ ∈ l) (hsound : Sound n b') :
    (b.front + w : ℤ) ≤ b.back := by
  obtain ⟨hwithin, hapart⟩ := hsound
  rw [hl] at hwithin hapart
  have hhi : (b.front + w : ℤ) ≤ n := (hwithin _ (List.mem_append_right _ hmem)).2
  have hle := h.le
  by_contra hshort
  obtain ⟨s, hs, hlo, hlen⟩ := h.start (by omega)
  rcases (List.pairwise_append.mp hapart).2.2 s hs _ hmem with hbefore | hbehind
  · simp only [Span.hi] at hbefore
    omega
  · simp only [Span.hi] at hbehind
    omega

theorem sound_takeFront_iff (h : Inv n b) :
    Sound n (b.takeFront w) ↔ (b.front + w : ℤ) ≤ b.back :=
  ⟨h.room_of_sound rfl List.mem_cons_self, fun hroom => (h.takeFront hroom).sound⟩

theorem sound_takeBoth_iff (h : Inv n b) (hv : 0 < v) (hw : 0 < w) :
    Sound n (b.takeBoth v w) ↔ (b.front + w : ℤ) ≤ b.back - v := by
  refine ⟨fun hsound => ?_, fun hroom => (h.takeBoth hv hroom).sound⟩
  have hspans : (b.takeBoth v w).spans = b.spans ++ [⟨b.back - v, v⟩, ⟨b.front, w⟩] := by
    simp [Block.takeBoth, Block.takeFront, Block.takeBack]
  have hroom := h.room_of_sound (w := w) hspans (by simp) hsound
  have hapart := hsound.apart
  rw [hspans, List.pairwise_append] at hapart
  -- the two spans that have been written now
  rcases (List.pairwise_cons.mp hapart.2.1).1 _ List.mem_cons_self with hbefore | hbehind
  · simp only [Span.hi] at hbefore
    omega
  · exact hbehind

end Block

end TwoEnded
