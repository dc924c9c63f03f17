import Mathlib.Algebra.GroupWithZero.Nat
import Mathlib.Data.List.Basic
import Mathlib.Tactic.Common

/-!
# The line ends of `sock`

With the option `-c` the program `sock` converts what it copies: `crlf_add` puts a carriage
return before every newline that goes to the network, `crlf_strip` drops every carriage
return that comes from there.  Both convert one block into a buffer of `dstsize` bytes, keep
the length of the result in a variable of its own, and leave through `err_quit` when they find
the buffer too small.

## Main definitions

* `crlfAdd`, `crlfStrip` — the two functions.
* `expand`, `strip` — what they are for, on a whole stream.

## Main results

* `crlfAdd_ret`, `crlfStrip_ret` — what they return, and when they do not.
* `length_crlfAdd_le`, `length_crlfStrip_le` — they store `dstsize` bytes at most.
* `crlf_round_trip` — **the conversions do not depend on how the stream is cut into blocks**,
  and one undoes the other.
-/

namespace TcpIp.Sock

/-- `'\n'` -/
def lf : UInt8 := 10

/-- `'\r'` -/
def cr : UInt8 := 13

/-- What a conversion has done. -/
structure Conv where
  /-- The bytes stored, from `dst` on. -/
  stored : List UInt8
  /-- The value returned; `none` if the program was left through `err_quit`. -/
  ret : Option ℕ
  deriving DecidableEq, Repr

/-! ### The two functions -/

/-- The loop of `crlf_add`, over what is left of the source. -/
def crlfAddLoop (dstsize : ℕ) : List UInt8 → ℕ → List UInt8 → Conv
  | [], lenout, dst => ⟨dst, some lenout⟩
  | c :: src, lenout, dst =>
    if c = lf then
      if dstsize ≤ lenout + 1 then ⟨dst, none⟩
      else crlfAddLoop dstsize src (lenout + 1) (dst ++ [cr] ++ [c])
    else crlfAddLoop dstsize src lenout (dst ++ [c])

/-- `crlf_add(dst, dstsize, src, lenin)`, with the `lenin` bytes at `src`. -/
def crlfAdd (dstsize : ℕ) (src : List UInt8) : Conv :=
  if dstsize < src.length then ⟨[], none⟩ else crlfAddLoop dstsize src src.length []

/-- The loop of `crlf_strip`. -/
def crlfStripLoop (dstsize : ℕ) : List UInt8 → ℕ → List UInt8 → Conv
  | [], lenout, dst => ⟨dst, some lenout⟩
  | c :: src, lenout, dst =>
    if c ≠ cr then
      if dstsize ≤ lenout + 1 then ⟨dst, none⟩
      else crlfStripLoop dstsize src (lenout + 1) (dst ++ [c])
    else crlfStripLoop dstsize src lenout dst

/-- `crlf_strip(dst, dstsize, src, lenin)`. -/
def crlfStrip (dstsize : ℕ) (src : List UInt8) : Conv := crlfStripLoop dstsize src 0 []

/-! ### What they are for -/

/-- Every newline gets a carriage return before it. -/
def expand (s : List UInt8) : List UInt8 := s.flatMap fun c => if c = lf then [cr, lf] else [c]

/-- The carriage returns are dropped. -/
def strip (s : List UInt8) : List UInt8 := s.filter (· ≠ cr)

@[simp] theorem expand_nil : expand [] = [] := rfl

theorem expand_lf (s : List UInt8) : expand (lf :: s) = cr :: lf :: expand s := by
  simp [expand]

theorem expand_cons {c : UInt8} (hc : c ≠ lf) (s : List UInt8) :
    expand (c :: s) = c :: expand s := by
  simp [expand, hc]

theorem expand_append (s t : List UInt8) : expand (s ++ t) = expand s ++ expand t :=
  List.flatMap_append

@[simp] theorem strip_nil : strip [] = [] := rfl

theorem strip_cr (s : List UInt8) : strip (cr :: s) = strip s := by
  simp [strip]

theorem strip_cons {c : UInt8} (hc : c ≠ cr) (s : List UInt8) :
    strip (c :: s) = c :: strip s := by
  simp [strip, hc]

theorem strip_append (s t : List UInt8) : strip (s ++ t) = strip s ++ strip t :=
  List.filter_append s t

theorem length_expand (s : List UInt8) : (expand s).length = s.length + s.count lf := by
  induction s with
  | nil => rfl
  | cons c s ih =>
    by_cases hc : c = lf
    · subst hc
      rw [expand_lf, List.length_cons, List.length_cons, ih, List.count_cons_self,
        List.length_cons]
      omega
    · rw [expand_cons hc, List.length_cons, ih, List.count_cons_of_ne hc, List.length_cons]
      omega

/-- **Stripping undoes the expansion**, but for the carriage returns that were there before. -/
theorem strip_expand (s : List UInt8) : strip (expand s) = strip s := by
  induction s with
  | nil => rfl
  | cons c s ih =>
    by_cases hc : c = lf
    · subst hc
      rw [expand_lf, strip_cr, strip_cons (by decide), strip_cons (by decide), ih]
    · rw [expand_cons hc]
      by_cases hcr : c = cr
      · subst hcr
        rw [strip_cr, strip_cr, ih]
      · rw [strip_cons hcr, strip_cons hcr, ih]

theorem strip_eq_self {s : List UInt8} (hs : cr ∉ s) : strip s = s := by
  unfold strip
  rw [List.filter_eq_self]
  intro c hc
  exact decide_eq_true fun h => hs (h ▸ hc)

section Blocks

variable {dstsize : ℕ} {src dst : List UInt8} {lenout : ℕ}

/-! ### One block -/

/-- The loop of `crlf_add` gives up at a newline that fills the buffer or more.  If any of them
does, the last one does. -/
theorem crlfAddLoop_ret : ∀ (src : List UInt8) (lenout : ℕ) (dst : List UInt8),
    (crlfAddLoop dstsize src lenout dst).ret =
      if lf ∈ src ∧ dstsize ≤ lenout + src.count lf then none
      else some (lenout + src.count lf) := by
  intro src
  induction src with
  | nil => intro lenout dst; simp [crlfAddLoop]
  | cons c src ih =>
    intro lenout dst
    by_cases hc : c = lf
    · subst hc
      rw [crlfAddLoop, if_pos rfl, List.count_cons_self]
      by_cases hfull : dstsize ≤ lenout + 1
      · rw [if_pos hfull, if_pos ⟨List.mem_cons_self, by omega⟩]
      · rw [if_neg hfull, ih, Nat.add_assoc lenout 1, Nat.add_comm 1]
        have hmem : lf ∈ src ∧ dstsize ≤ lenout + (src.count lf + 1) ↔
            lf ∈ lf :: src ∧ dstsize ≤ lenout + (src.count lf + 1) := by
          refine ⟨fun h => ⟨List.mem_cons_self, h.2⟩, fun h => ⟨?_, h.2⟩⟩
          apply List.count_pos_iff.mp
          omega
        rw [if_congr hmem rfl rfl]
    · rw [crlfAddLoop, if_neg hc, ih, List.count_cons_of_ne hc]
      have hmem : lf ∈ src ↔ lf ∈ c :: src := by simp [Ne.symm hc]
      rw [if_congr (and_congr_left' hmem) rfl rfl]

theorem crlfAddLoop_stored : ∀ (src : List UInt8) (lenout : ℕ) (dst : List UInt8),
    (crlfAddLoop dstsize src lenout dst).ret ≠ none →
    (crlfAddLoop dstsize src lenout dst).stored = dst ++ expand src := by
  intro src
  induction src with
  | nil => intro lenout dst _; simp [crlfAddLoop]
  | cons c src ih =>
    intro lenout dst hret
    by_cases hc : c = lf
    · subst hc
      rw [crlfAddLoop, if_pos rfl] at hret ⊢
      by_cases hfull : dstsize ≤ lenout + 1
      · rw [if_pos hfull] at hret
        exact absurd rfl hret
      · rw [if_neg hfull] at hret ⊢
        rw [ih _ _ hret, expand_lf]
        simp
    · rw [crlfAddLoop, if_neg hc] at hret ⊢
      rw [ih _ _ hret, expand_cons hc]
      simp

/-- What is stored and what is still to be read never make up more than `lenout`. -/
theorem length_crlfAddLoop_le : ∀ (src : List UInt8) (lenout : ℕ) (dst : List UInt8),
    dst.length + src.length = lenout → lenout ≤ dstsize →
    (crlfAddLoop dstsize src lenout dst).stored.length ≤ dstsize := by
  intro src
  induction src with
  | nil => intro lenout dst hlen hle; simpa [crlfAddLoop, ← hlen] using hle
  | cons c src ih =>
    intro lenout dst hlen hle
    rw [List.length_cons] at hlen
    by_cases hc : c = lf
    · rw [crlfAddLoop, if_pos hc]
      by_cases hfull : dstsize ≤ lenout + 1
      · rw [if_pos hfull]
        show dst.length ≤ dstsize
        omega
      · rw [if_neg hfull]
        apply ih
        · simp only [List.length_append, List.length_singleton]
          omega
        · omega
    · rw [crlfAddLoop, if_neg hc]
      apply ih
      · simp only [List.length_append, List.length_singleton]
        omega
      · exact hle

/-- **What `crlf_add` returns**, and when it does not: the buffer is too small, or it is just
large enough and there is a newline in the block. -/
theorem crlfAdd_ret (dstsize : ℕ) (src : List UInt8) :
    (crlfAdd dstsize src).ret =
      if dstsize < (expand src).length ∨ (dstsize = (expand src).length ∧ lf ∈ src) then none
      else some (expand src).length := by
  have hcount : lf ∉ src → src.count lf = 0 := List.count_eq_zero.mpr
  have hlen := length_expand src
  unfold crlfAdd
  by_cases hbig : dstsize < src.length
  · rw [if_pos hbig, if_pos (.inl (by omega))]
  · rw [if_neg hbig, crlfAddLoop_ret, ← hlen]
    refine if_congr ?_ rfl rfl
    constructor
    · rintro ⟨hlf, hle⟩
      rcases Nat.lt_or_eq_of_le hle with h | h
      · exact .inl h
      · exact .inr ⟨h, hlf⟩
    · rintro (h | ⟨h, hlf⟩)
      · refine ⟨?_, by omega⟩
        by_contra hlf
        have := hcount hlf
        omega
      · exact ⟨hlf, by omega⟩

theorem crlfAdd_stored (h : (crlfAdd dstsize src).ret ≠ none) :
    (crlfAdd dstsize src).stored = expand src := by
  unfold crlfAdd at h ⊢
  split at h
  · exact absurd rfl h
  · next hbig =>
    rw [if_neg hbig, crlfAddLoop_stored _ _ _ h, List.nil_append]

theorem length_crlfAdd_le (dstsize : ℕ) (src : List UInt8) :
    (crlfAdd dstsize src).stored.length ≤ dstsize := by
  unfold crlfAdd
  split
  · exact Nat.zero_le _
  · next hbig =>
    exact length_crlfAddLoop_le src src.length [] (by simp) (by omega)

/-- The loop of `crlf_strip` gives up at a byte that fills the buffer or more. -/
theorem crlfStripLoop_ret : ∀ (src : List UInt8) (lenout : ℕ) (dst : List UInt8),
    (crlfStripLoop dstsize src lenout dst).ret =
      if 0 < (strip src).length ∧ dstsize ≤ lenout + (strip src).length then none
      else some (lenout + (strip src).length) := by
  intro src
  induction src with
  | nil => intro lenout dst; simp [crlfStripLoop]
  | cons c src ih =>
    intro lenout dst
    by_cases hc : c = cr
    · subst hc
      rw [crlfStripLoop, if_neg (by simp), ih, strip_cr]
    · rw [crlfStripLoop, if_pos hc, strip_cons hc, List.length_cons]
      by_cases hfull : dstsize ≤ lenout + 1
      · rw [if_pos hfull, if_pos ⟨by omega, by omega⟩]
      · rw [if_neg hfull, ih, Nat.add_assoc lenout 1, Nat.add_comm 1]
        refine if_congr ?_ rfl rfl
        constructor <;> rintro ⟨hpos, hle⟩ <;> constructor <;> omega

theorem crlfStripLoop_stored : ∀ (src : List UInt8) (lenout : ℕ) (dst : List UInt8),
    (crlfStripLoop dstsize src lenout dst).ret ≠ none →
    (crlfStripLoop dstsize src lenout dst).stored = dst ++ strip src := by
  intro src
  induction src with
  | nil => intro lenout dst _; simp [crlfStripLoop]
  | cons c src ih =>
    intro lenout dst hret
    by_cases hc : c = cr
    · subst hc
      rw [crlfStripLoop, if_neg (by simp)] at hret ⊢
      rw [ih _ _ hret, strip_cr]
    · rw [crlfStripLoop, if_pos hc] at hret ⊢
      by_cases hfull : dstsize ≤ lenout + 1
      · rw [if_pos hfull] at hret
        exact absurd rfl hret
      · rw [if_neg hfull] at hret ⊢
        rw [ih _ _ hret, strip_cons hc]
        simp

theorem length_crlfStripLoop_le : ∀ (src : List UInt8) (lenout : ℕ) (dst : List UInt8),
    dst.length = lenout → lenout ≤ dstsize →
    (crlfStripLoop dstsize src lenout dst).stored.length ≤ dstsize := by
  intro src
  induction src with
  | nil => intro lenout dst hlen hle; simpa [crlfStripLoop, ← hlen] using hle
  | cons c src ih =>
    intro lenout dst hlen hle
    by_cases hc : c = cr
    · rw [crlfStripLoop, if_neg (by simpa using hc)]
      exact ih lenout dst hlen hle
    · rw [crlfStripLoop, if_pos hc]
      by_cases hfull : dstsize ≤ lenout + 1
      · rw [if_pos hfull]
        show dst.length ≤ dstsize
        omega
      · rw [if_neg hfull]
        apply ih
        · simp [hlen]
        · omega

/-- **What `crlf_strip` returns**, and when it does not: something is left of the block, and it
fills the buffer or more. -/
theorem crlfStrip_ret (dstsize : ℕ) (src : List UInt8) :
    (crlfStrip dstsize src).ret =
      if 0 < (strip src).length ∧ dstsize ≤ (strip src).length then none
      else some (strip src).length := by
  rw [crlfStrip, crlfStripLoop_ret, Nat.zero_add]

theorem crlfStrip_stored (h : (crlfStrip dstsize src).ret ≠ none) :
    (crlfStrip dstsize src).stored = strip src := by
  rw [crlfStrip, crlfStripLoop_stored _ _ _ h, List.nil_append]

theorem length_crlfStrip_le (dstsize : ℕ) (src : List UInt8) :
    (crlfStrip dstsize src).stored.length ≤ dstsize :=
  length_crlfStripLoop_le src 0 [] rfl (Nat.zero_le _)

/-- The length returned is that of what was stored. -/
theorem crlfAdd_ret_eq (h : (crlfAdd dstsize src).ret ≠ none) :
    (crlfAdd dstsize src).ret = some (crlfAdd dstsize src).stored.length := by
  rw [crlfAdd_stored h]
  rw [crlfAdd_ret] at h ⊢
  split at h
  · exact absurd rfl h
  · next hfits => rw [if_neg hfits]

theorem crlfStrip_ret_eq (h : (crlfStrip dstsize src).ret ≠ none) :
    (crlfStrip dstsize src).ret = some (crlfStrip dstsize src).stored.length := by
  rw [crlfStrip_stored h]
  rw [crlfStrip_ret] at h ⊢
  split at h
  · exact absurd rfl h
  · next hfits => rw [if_neg hfits]

/-! ### A stream in blocks -/

/-- What is stored for the blocks of a stream. -/
def storedAll (conv : List UInt8 → Conv) (blocks : List (List UInt8)) : List UInt8 :=
  (blocks.map fun b => (conv b).stored).flatten

/-- The sum of the lengths returned. -/
def lengthAll (conv : List UInt8 → Conv) (blocks : List (List UInt8)) : ℕ :=
  (blocks.map fun b => (conv b).ret.getD 0).sum

/-- None of the blocks makes the program leave. -/
def NoneQuits (conv : List UInt8 → Conv) (blocks : List (List UInt8)) : Prop :=
  ∀ b ∈ blocks, (conv b).ret ≠ none

instance (conv : List UInt8 → Conv) (blocks : List (List UInt8)) :
    Decidable (NoneQuits conv blocks) := inferInstanceAs (Decidable (∀ b ∈ blocks, _))

/-- A conversion that does to a block what `g` does to it, where `g` can be applied piece by
piece, does to the stream what `g` does to it. -/
theorem storedAll_eq {conv : List UInt8 → Conv} {g : List UInt8 → List UInt8}
    (hnil : g [] = []) (happend : ∀ s t, g (s ++ t) = g s ++ g t)
    (hconv : ∀ b, (conv b).ret ≠ none → (conv b).stored = g b) :
    ∀ (blocks : List (List UInt8)), NoneQuits conv blocks →
      storedAll conv blocks = g blocks.flatten := by
  intro blocks
  induction blocks with
  | nil => intro _; exact hnil.symm
  | cons b blocks ih =>
    intro hquits
    obtain ⟨hb, hblocks⟩ := List.forall_mem_cons.mp hquits
    have hrest := ih hblocks
    unfold storedAll at hrest ⊢
    rw [List.map_cons, List.flatten_cons, List.flatten_cons, happend, hconv b hb, hrest]

theorem lengthAll_eq {conv : List UInt8 → Conv}
    (hconv : ∀ b, (conv b).ret ≠ none → (conv b).ret = some (conv b).stored.length) :
    ∀ (blocks : List (List UInt8)), NoneQuits conv blocks →
      lengthAll conv blocks = (storedAll conv blocks).length := by
  intro blocks
  induction blocks with
  | nil => intro _; rfl
  | cons b blocks ih =>
    intro hquits
    obtain ⟨hb, hblocks⟩ := List.forall_mem_cons.mp hquits
    have hrest := ih hblocks
    unfold storedAll lengthAll at hrest ⊢
    rw [List.map_cons, List.map_cons, List.flatten_cons, List.length_append, List.sum_cons, hrest,
      hconv b hb, Option.getD_some]

theorem storedAll_crlfAdd {blocks : List (List UInt8)}
    (h : NoneQuits (crlfAdd dstsize) blocks) :
    storedAll (crlfAdd dstsize) blocks = expand blocks.flatten :=
  storedAll_eq expand_nil expand_append (fun _ => crlfAdd_stored) blocks h

theorem storedAll_crlfStrip {blocks : List (List UInt8)}
    (h : NoneQuits (crlfStrip dstsize) blocks) :
    storedAll (crlfStrip dstsize) blocks = strip blocks.flatten :=
  storedAll_eq strip_nil strip_append (fun _ => crlfStrip_stored) blocks h

/-- **The conversions do not depend on how a stream is cut into blocks, and `crlf_strip` undoes
`crlf_add`.**  What `crlf_add` stores for the blocks `out` of a stream is the stream with a
carriage return before every newline, and the lengths it returns add up to its length; what
`crlf_strip` stores for the blocks `inp` of a stream is the stream without its carriage returns.
If `inp` is the first result, cut in some way, the second one is the stream that `out` makes
up, without its carriage returns. -/
theorem crlf_round_trip (n m : ℕ) (out inp : List (List UInt8))
    (hout : NoneQuits (crlfAdd n) out) (hinp : NoneQuits (crlfStrip m) inp) :
    (storedAll (crlfAdd n) out = expand out.flatten ∧
        lengthAll (crlfAdd n) out = (expand out.flatten).length) ∧
      (storedAll (crlfStrip m) inp = strip inp.flatten ∧
        lengthAll (crlfStrip m) inp = (strip inp.flatten).length) ∧
      (inp.flatten = storedAll (crlfAdd n) out →
        storedAll (crlfStrip m) inp = strip out.flatten ∧
        (cr ∉ out.flatten → storedAll (crlfStrip m) inp = out.flatten)) := by
  have hadd := storedAll_crlfAdd hout
  have hstrip := storedAll_crlfStrip hinp
  refine ⟨⟨hadd, ?_⟩, ⟨hstrip, ?_⟩, ?_⟩
  · rw [lengthAll_eq (fun _ => crlfAdd_ret_eq) out hout, hadd]
  · rw [lengthAll_eq (fun _ => crlfStrip_ret_eq) inp hinp, hstrip]
  · intro hsame
    have hback : storedAll (crlfStrip m) inp = strip out.flatten := by
      rw [hstrip, hsame, hadd, strip_expand]
    exact ⟨hback, fun hcr => hback.trans (strip_eq_self hcr)⟩

/-- Two lines in one block, which come back with a carriage return and its newline in different
blocks. -/
theorem crlf_round_trip_split :
    storedAll (crlfAdd 8) [[97, lf, 98, lf]] = [97, cr, lf, 98, cr, lf] ∧
      storedAll (crlfStrip 8) [[97, cr], [lf, 98, cr, lf]] = [97, lf, 98, lf] :=
  have h := crlf_round_trip 8 8 [[97, lf, 98, lf]] [[97, cr], [lf, 98, cr, lf]]
    (by decide) (by decide)
  ⟨h.1.1, (h.2.2 (by decide)).2 (by decide)⟩

end Blocks

end TcpIp.Sock
