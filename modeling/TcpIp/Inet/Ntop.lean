import TcpIp.Inet.Pton6
import TcpIp.Lib.Bytes
import TcpIp.Lib.LongestRun
import TcpIp.Ntop.SockNtop

/-!
# Addresses as text

`inet_ntop` of `libfree` writes an address as text.  The text of an IPv6 address is made in an array
of its own: the longest run of groups that are zero is left out, and an address that stands for an
IPv4 address ends with a dotted quad.

The model fails if something is written outside of one of the arrays of the functions, or behind
the memory at `dst`.  The arrays of the functions are large enough for all addresses.  For an IPv4
address the length of the text is compared with `size` without the terminator, so that a text of
just `size` characters is stored with its terminator behind the end.

## Main definitions

* `inetNtop4`, `inetNtop6`, `inetNtop` — the functions of `inet_ntop.c`.
* `inetNtopIpv4` — the function of `inet_ntop_ipv4.c`.
* `text4`, `text6` — the texts.

## Main results

* `inetNtop4_eq`, `inetNtop6_eq` — what is stored.
* `inetNtop_overrun_iff` — **when something is written behind `dst`.**
* `inetNtop_longest` — **the groups that are left out.**
-/

namespace TcpIp.Inet

open Buffer Text Bytes LongestRun
open Ntop (nul)

/-! ### The functions -/

/-- `sizeof "255.255.255.255"` -/
def sizeofTmp4 : ℕ := 16

/-- `sizeof "ffff:ffff:ffff:ffff:ffff:ffff:255.255.255.255"` -/
def sizeofTmp6 : ℕ := 46

/-- The arrays of the functions, with what happens to be in them. -/
structure Frame where
  tmp4 : List Char
  tmp6 : List Char
  length_tmp4 : tmp4.length = sizeofTmp4
  length_tmp6 : tmp6.length = sizeofTmp6

/-- `"%u.%u.%u.%u"` -/
def text4 (src : List UInt8) : List Char :=
  joined '.' 10 [byte src 0, byte src 1, byte src 2, byte src 3]

/-- `inet_ntop4(src, buf + i, size)`.  The inner `none` is for `NULL`. -/
def inetNtop4 (fr : Frame) (src : List UInt8) (buf : List Char) (i size : ℕ) :
    Option (Option (List Char)) := do
  let tmp ← strcpy nul fr.tmp4 0 (text4 src)
  let text := strAt nul tmp 0
  if text.length > size then some none else (strcpy nul buf i text).map some

/-- `words[i / 2] |= (src[i] << ((1 - (i % 2)) << 3))` -/
def words (src : List UInt8) : List ℕ :=
  (List.range in6addrsz).foldl
    (fun ws i => ws.modify (i / 2) (· ||| byte src i <<< ((1 - i % 2) <<< 3)))
    (List.replicate 8 0)

/-- The groups that are left out. -/
def best (ws : List ℕ) : Option Run :=
  (longest (fun i => ws.getD i 0 == 0) 8).filter (2 ≤ ·.len)

/-- The array and the position in it. -/
structure Out where
  tmp : List Char
  tp : ℕ

/-- `*tp++ = c` -/
def putChar (o : Out) (c : Char) : Option Out :=
  if o.tp < o.tmp.length then some ⟨o.tmp.set o.tp c, o.tp + 1⟩ else none

/-- `if (p) *tp++ = ':'` -/
def putColon (p : Prop) [Decidable p] (o : Out) : Option Out :=
  if p then putChar o ':' else some o

/-- `sprintf(tp, ...); tp += strlen(tp)` -/
def putStr (o : Out) (s : List Char) : Option Out :=
  (strcpy nul o.tmp o.tp s).map fun tmp => ⟨tmp, o.tp + (strAt nul tmp o.tp).length⟩

/-- `best.base != -1 && i >= best.base && i < (best.base + best.len)` -/
def inside (best : Option Run) (i : ℕ) : Bool :=
  best.any fun r => r.base ≤ i && i < r.base + r.len

/-- `best.base == 0 && (best.len == 6 || (best.len == 5 && words[5] == 0xffff))` -/
def encapsulated (best : Option Run) (ws : List ℕ) : Bool :=
  best.any fun r => r.base == 0 && (r.len == 6 || (r.len == 5 && ws.getD 5 0 == 0xffff))

/-- The loop that makes the text, from the group `i` on.  The inner `none` is for `NULL`. -/
def formatLoop (fr : Frame) (src : List UInt8) (best : Option Run) (ws : List ℕ) :
    ℕ → List ℕ → Out → Option (Option Out)
  | _, [], o => some (some o)
  | i, w :: rest, o =>
    if inside best i then do
      let o ← putColon (best.map Run.base = some i) o
      formatLoop fr src best ws (i + 1) rest o
    else do
      let o ← putColon (i ≠ 0) o
      if i = 6 ∧ encapsulated best ws then
        match ← inetNtop4 fr (src.drop 12) o.tmp o.tp (sizeofTmp6 - o.tp) with
        | none => some none
        | some tmp => some (some ⟨tmp, o.tp + (strAt nul tmp o.tp).length⟩)
      else do
        let o ← putStr o (Nat.toDigits 16 w)
        formatLoop fr src best ws (i + 1) rest o

/-- `inet_ntop6(src, dst, size)` -/
def inetNtop6 (fr : Frame) (src : List UInt8) (dst : List Char) (size : ℕ) :
    Option (Option (List Char)) := do
  let ws := words src
  let best := best ws
  match ← formatLoop fr src best ws 0 ws ⟨fr.tmp6, 0⟩ with
  | none => some none
  | some o => do
    let o ← putColon (best.map (fun r => r.base + r.len) = some 8) o
    let o ← putChar o nul
    if o.tp > size then some none else (strcpy nul dst 0 (strAt nul o.tmp 0)).map some

/-- What `inet_ntop` returns. -/
inductive NtopRet where
  /-- `dst`, with the memory there. -/
  | stored (dst : List Char)
  /-- `NULL`, with `ENOSPC`. -/
  | noSpace
  /-- `NULL`, with `EAFNOSUPPORT`. -/
  | unsupported
  deriving DecidableEq, Repr

/-- The pointer that is returned. -/
def NtopRet.ofPtr : Option (List Char) → NtopRet
  | some dst => .stored dst
  | none => .noSpace

/-- `inet_ntop` of `inet_ntop.c`. -/
def inetNtop (fr : Frame) (af : Family) (src : List UInt8) (dst : List Char) (size : ℕ) :
    Option NtopRet :=
  match af with
  | .inet => (inetNtop4 fr src dst 0 size).map .ofPtr
  | .inet6 => (inetNtop6 fr src dst size).map .ofPtr
  | .other => some .unsupported

/-- `inet_ntop` of `inet_ntop_ipv4.c`. -/
def inetNtopIpv4 (fr : Frame) (af : Family) (src : List UInt8) (dst : List Char) (len : ℕ) :
    Option NtopRet :=
  match af with
  | .inet => do
    let temp ← strcpy nul fr.tmp4 0 (Ntop.snprintf sizeofTmp4 (text4 src))
    let text := strAt nul temp 0
    if text.length ≥ len then some .noSpace else (strcpy nul dst 0 text).map .stored
  | _ => some .unsupported

/-! ### The text of an IPv4 address -/

section Text4

variable {fr : Frame} {src : List UInt8} {buf dst : List Char} {i size : ℕ}

theorem length_text4 (src : List UInt8) : (text4 src).length ≤ 15 := by
  have hlt : ∀ n ∈ [byte src 0, byte src 1, byte src 2, byte src 3], n < 10 ^ 3 := by
    intro n hn
    have hbyte : ∀ i, byte src i < 10 ^ 3 := fun i => Nat.lt_of_lt_of_le (UInt8.toNat_lt _)
      (by decide)
    simp only [List.mem_cons, List.not_mem_nil, or_false] at hn
    rcases hn with rfl | rfl | rfl | rfl <;> exact hbyte _
  exact length_joined_le (by decide) (by decide) _ hlt

theorem nul_notMem_joined {c : Char} {b : ℕ} (hb : 1 < b) (hc : c ≠ nul) (hnul : NoDigit b nul)
    (ns : List ℕ) : nul ∉ joined c b ns := by
  intro hmem
  rcases mem_joined hb ns hmem with h | ⟨d, hd, h⟩
  · exact hc h.symm
  · exact hnul d hd h

theorem nul_notMem_text4 (src : List UInt8) : nul ∉ text4 src :=
  nul_notMem_joined (by decide) (by decide) (by decide) _

theorem strcpy_zero (s rest : List Char) (h : s.length + 1 ≤ rest.length) :
    ∃ rest', strcpy nul rest 0 s = some (s ++ nul :: rest') ∧
      (s ++ nul :: rest').length = rest.length := by
  have hroom : ([] : List Char).length + (s.length + 1) ≤ ([] ++ rest).length := by simpa using h
  have hcpy := strcpy_append nul hroom
  simpa using hcpy

/-- What is stored. -/
theorem inetNtop4_eq (fr : Frame) (src : List UInt8) (buf : List Char) (i size : ℕ) :
    inetNtop4 fr src buf i size =
      if (text4 src).length > size then some none
      else (strcpy nul buf i (text4 src)).map some := by
  have hlen := length_text4 src
  obtain ⟨rest, hcpy, -⟩ := strcpy_zero (text4 src) fr.tmp4
    (by rw [fr.length_tmp4, sizeofTmp4]; omega)
  have hstr : strAt nul (text4 src ++ nul :: rest) 0 = text4 src :=
    strAt_eq (nul_notMem_text4 src) List.drop_zero
  rw [inetNtop4, hcpy, Option.bind_eq_bind, Option.bind_some, hstr]

end Text4

/-! ### The text of an IPv6 address -/

/-- What the loop adds to the text, from the group `i` on. -/
def tailText (src : List UInt8) (best : Option Run) (ws : List ℕ) : ℕ → List ℕ → List Char
  | _, [] => []
  | i, w :: rest =>
    if inside best i then
      (if best.map Run.base = some i then [':'] else []) ++ tailText src best ws (i + 1) rest
    else
      (if i ≠ 0 then [':'] else []) ++
        if i = 6 ∧ encapsulated best ws then text4 (src.drop 12)
        else Nat.toDigits 16 w ++ tailText src best ws (i + 1) rest

attribute [local simp] tailText

section Format

variable {fr : Frame} {src : List UInt8} {b : Option Run} {ws : List ℕ}

/-- The text `out` has been written. -/
structure Written (out : List Char) (o : Out) : Prop where
  tp_eq : o.tp = out.length
  length_eq : o.tmp.length = sizeofTmp6
  tmp_eq : ∃ rest, o.tmp = out ++ rest

variable {out s : List Char} {o : Out} {c : Char}

theorem Written.putChar (h : Written out o) (hroom : out.length + 1 ≤ sizeofTmp6) :
    ∃ o', putChar o c = some o' ∧ Written (out ++ [c]) o' := by
  obtain ⟨rest, htmp⟩ := h.tmp_eq
  have hlen := h.length_eq
  have htp := h.tp_eq
  rw [htmp, List.length_append] at hlen
  obtain ⟨x, rest, rfl⟩ := List.exists_cons_of_length_pos (show 0 < rest.length by omega)
  have hlt : o.tp < o.tmp.length := by rw [h.length_eq]; omega
  have hset : o.tmp.set o.tp c = out ++ [c] ++ rest := by
    rw [htmp, htp, List.set_append_right _ _ (Nat.le_refl _), Nat.sub_self, List.set_cons_zero]
    simp
  refine ⟨⟨o.tmp.set o.tp c, o.tp + 1⟩, by rw [Inet.putChar, if_pos hlt], ?_, ?_, rest, hset⟩
  · simp [htp]
  · rw [List.length_set]
    exact h.length_eq

/-- The string is in the array, with its terminator. -/
theorem Written.strcpy (h : Written out o) (hs : nul ∉ s)
    (hroom : out.length + s.length + 1 ≤ sizeofTmp6) :
    ∃ tmp, strcpy nul o.tmp o.tp s = some tmp ∧ strAt nul tmp o.tp = s ∧
      Written (out ++ s) ⟨tmp, o.tp + s.length⟩ := by
  obtain ⟨rest, htmp⟩ := h.tmp_eq
  have hlen := h.length_eq
  rw [htmp] at hlen
  have hfits : out.length + (s.length + 1) ≤ (out ++ rest).length := by
    rw [hlen]
    omega
  obtain ⟨rest', hcpy, hlen'⟩ := strcpy_append nul hfits
  refine ⟨_, by rw [htmp, h.tp_eq, hcpy], ?_, ?_, ?_, nul :: rest', ?_⟩
  · rw [h.tp_eq]
    exact strAt_eq hs (List.drop_left ..)
  · rw [h.tp_eq, List.length_append]
  · exact hlen'.trans hlen
  · rw [List.append_assoc]

theorem Written.putStr (h : Written out o) (hs : nul ∉ s)
    (hroom : out.length + s.length + 1 ≤ sizeofTmp6) :
    ∃ o', putStr o s = some o' ∧ Written (out ++ s) o' := by
  obtain ⟨tmp, hcpy, hstr, hw⟩ := h.strcpy hs hroom
  exact ⟨_, by rw [Inet.putStr, hcpy, Option.map_some, hstr], hw⟩

/-- A colon is written, or nothing. -/
theorem Written.putColon (h : Written out o) (p : Prop) [Decidable p]
    (hroom : (out ++ if p then [':'] else []).length + 1 ≤ sizeofTmp6) :
    ∃ o', Inet.putColon p o = some o' ∧ Written (out ++ if p then [':'] else []) o' := by
  rw [Inet.putColon]
  by_cases hp : p
  · simp only [if_pos hp] at hroom ⊢
    rw [List.length_append] at hroom
    exact h.putChar (by omega)
  · simp only [if_neg hp, List.append_nil]
    exact ⟨o, rfl, h⟩

/-- **The loop writes the text.** -/
theorem formatLoop_eq (fr : Frame) (src : List UInt8) (b : Option Run) (ws : List ℕ) :
    ∀ (rest : List ℕ) (i : ℕ) (out : List Char) (o : Out), Written out o →
    (out ++ tailText src b ws i rest).length + 1 ≤ sizeofTmp6 →
    ∃ o', formatLoop fr src b ws i rest o = some (some o') ∧
      Written (out ++ tailText src b ws i rest) o' := by
  intro rest
  induction rest with
  | nil =>
    intro i out o h _
    exact ⟨o, rfl, by rwa [tailText, List.append_nil]⟩
  | cons w rest ih =>
    intro i out o h hroom
    rw [tailText] at hroom ⊢
    rw [formatLoop]
    by_cases hin : inside b i
    · simp only [if_pos hin, ← List.append_assoc] at hroom ⊢
      obtain ⟨o₁, hcolon, h₁⟩ := h.putColon (b.map Run.base = some i)
        (by rw [List.length_append] at hroom; omega)
      rw [hcolon]
      exact ih (i + 1) _ o₁ h₁ hroom
    · simp only [if_neg hin, ← List.append_assoc] at hroom ⊢
      obtain ⟨o₁, hcolon, h₁⟩ := h.putColon (i ≠ 0) (by rw [List.length_append] at hroom; omega)
      rw [hcolon]
      by_cases henc : i = 6 ∧ encapsulated b ws
      · -- the IPv4 address is the end of the text
        simp only [if_pos henc, Option.bind_eq_bind, Option.bind_some] at hroom ⊢
        rw [List.length_append] at hroom
        obtain ⟨tmp, hcpy, hstr, h₂⟩ := h₁.strcpy (nul_notMem_text4 (src.drop 12)) hroom
        have hfits : ¬(text4 (src.drop 12)).length > sizeofTmp6 - o₁.tp := by
          rw [h₁.tp_eq]
          omega
        rw [inetNtop4_eq, if_neg hfits, hcpy, Option.map_some, Option.bind_some]
        exact ⟨_, by simp only [hstr], h₂⟩
      · simp only [if_neg henc, ← List.append_assoc] at hroom ⊢
        obtain ⟨o₂, hput, h₂⟩ := h₁.putStr (notMem_toDigits (b := 16) (by decide) (by decide) w)
          (by rw [List.length_append] at hroom; rw [List.length_append] at hroom; omega)
        simp only [Option.bind_eq_bind, Option.bind_some]
        rw [hput]
        exact ih (i + 1) _ o₂ h₂ hroom

end Format

/-- The text behind the `::`. -/
def backText (src : List UInt8) (ws : List ℕ) (r : Run) : List Char :=
  if encapsulated (some r) ws then
    (if r.len = 6 then [] else ['f', 'f', 'f', 'f', ':']) ++ text4 (src.drop 12)
  else joined ':' 16 (ws.drop (r.base + r.len))

/-- The text of an IPv6 address. -/
def text6 (src : List UInt8) : List Char :=
  match best (words src) with
  | none => joined ':' 16 (words src)
  | some r => joined ':' 16 ((words src).take r.base) ++
      ':' :: ':' :: backText src (words src) r

section Parts

variable {src : List UInt8} {b : Option Run} {r : Run} {ws : List ℕ}

theorem joined_cons (c : Char) (b n : ℕ) (ns : List ℕ) :
    joined c b (n :: ns) = Nat.toDigits b n ++ ns.flatMap fun m => c :: Nat.toDigits b m := by
  induction ns generalizing n with
  | nil => simp [joined]
  | cons m ns ih => rw [joined_cons_cons, ih, List.flatMap_cons, List.cons_append]

/-- Groups that are written. -/
theorem tailText_groups (src : List UInt8) (b : Option Run) (ws rest : List ℕ) :
    ∀ (us : List ℕ) (i : ℕ), 0 < i →
    (∀ j, i ≤ j → j < i + us.length → inside b j = false ∧ ¬(j = 6 ∧ encapsulated b ws)) →
    tailText src b ws i (us ++ rest) =
      (us.flatMap fun w => ':' :: Nat.toDigits 16 w) ++
        tailText src b ws (i + us.length) rest := by
  intro us
  induction us with
  | nil => intro i _ _; rfl
  | cons w us ih =>
    intro i hi hj
    obtain ⟨hin, henc⟩ := hj i (Nat.le_refl _) (by rw [List.length_cons]; omega)
    have hrest := ih (i + 1) (Nat.succ_pos i) fun j hle hlt =>
      hj j (by omega) (by rw [List.length_cons]; omega)
    rw [List.cons_append, tailText, hin, if_neg Bool.false_ne_true, if_pos (Nat.ne_of_gt hi),
      if_neg henc, hrest, List.flatMap_cons, List.length_cons, Nat.add_right_comm]
    simp [Nat.add_assoc]

/-- Groups that are left out. -/
theorem tailText_run (src : List UInt8) (b : Option Run) (ws rest : List ℕ) :
    ∀ (us : List ℕ) (i : ℕ),
    (∀ j, i ≤ j → j < i + us.length → inside b j = true ∧ b.map Run.base ≠ some j) →
    tailText src b ws i (us ++ rest) = tailText src b ws (i + us.length) rest := by
  intro us
  induction us with
  | nil => intro i _; rfl
  | cons w us ih =>
    intro i hj
    obtain ⟨hin, hbase⟩ := hj i (Nat.le_refl _) (by rw [List.length_cons]; omega)
    have hrest := ih (i + 1) fun j hle hlt => hj j (by omega) (by rw [List.length_cons]; omega)
    rw [List.cons_append, tailText, if_pos hin, if_neg hbase, hrest, List.length_cons]
    simp only [List.nil_append]
    congr 1
    omega

theorem inside_some {i : ℕ} : inside (some r) i = (r.base ≤ i && i < r.base + r.len) := rfl

theorem inside_eq_false {i : ℕ} (h : i < r.base ∨ r.base + r.len ≤ i) :
    inside (some r) i = false := by
  rw [inside_some, Bool.and_eq_false_iff, decide_eq_false_iff_not, decide_eq_false_iff_not]
  omega

theorem encapsulated_iff : encapsulated (some r) ws = true ↔
    r.base = 0 ∧ (r.len = 6 ∨ r.len = 5 ∧ ws.getD 5 0 = 0xffff) := by
  simp [encapsulated]

/-- The groups in front of the run. -/
theorem tailText_front (hle : r.base ≤ ws.length) : tailText src (some r) ws 0 ws =
    joined ':' 16 (ws.take r.base) ++ tailText src (some r) ws r.base (ws.drop r.base) := by
  rcases Nat.eq_zero_or_pos r.base with hzero | hpos
  · rw [hzero]
    rfl
  · obtain ⟨w, us, rfl⟩ := List.exists_cons_of_length_pos (show 0 < ws.length by omega)
    obtain ⟨k, hk⟩ := Nat.exists_eq_succ_of_ne_zero (Nat.ne_of_gt hpos)
    rw [List.length_cons] at hle
    have henc : ∀ i, ¬(i = 6 ∧ encapsulated (some r) (w :: us)) := by
      rintro i ⟨-, henc⟩
      rw [encapsulated_iff] at henc
      omega
    have hlen : (us.take k).length = k := by
      rw [List.length_take]
      omega
    have hgroups := tailText_groups src (some r) (w :: us) (us.drop k) (us.take k) 1
      (by omega) fun j _ hlt => ⟨inside_eq_false (by omega), henc j⟩
    rw [List.take_append_drop, hlen, Nat.add_comm 1 k] at hgroups
    rw [tailText, inside_eq_false (.inl hpos), if_neg Bool.false_ne_true, if_neg (henc 0), hgroups,
      hk, List.take_succ_cons, joined_cons, List.drop_succ_cons]
    simp

/-- The run itself. -/
theorem tailText_gap (hle : r.base + r.len ≤ ws.length) (hpos : 0 < r.len) :
    tailText src (some r) ws r.base (ws.drop r.base) =
      ':' :: tailText src (some r) ws (r.base + r.len) (ws.drop (r.base + r.len)) := by
  obtain ⟨k, hk⟩ := Nat.exists_eq_succ_of_ne_zero (Nat.ne_of_gt hpos)
  have hin : inside (some r) r.base = true := by
    simp [inside_some, hpos]
  rw [List.drop_eq_getElem_cons (by omega), tailText, if_pos hin, Option.map_some, if_pos rfl]
  have hlen : ((ws.drop (r.base + 1)).take k).length = k := by
    rw [List.length_take, List.length_drop]
    omega
  have hrun := tailText_run src (some r) ws
    ((ws.drop (r.base + 1)).drop k) ((ws.drop (r.base + 1)).take k) (r.base + 1) fun j hge hlt => by
      rw [inside_some, Option.map_some, Bool.and_eq_true, decide_eq_true_iff, decide_eq_true_iff]
      exact ⟨by omega, fun h => by have := Option.some.inj h; omega⟩
  rw [List.take_append_drop, hlen, List.drop_drop] at hrun
  rw [hrun, hk, show r.base + 1 + k = r.base + k.succ by omega]
  rfl

/-- The IPv4 address at the end. -/
theorem tailText_quad (src : List UInt8) (hws : ws.length = 8) (hle : r.base + r.len ≤ 6)
    (henc : encapsulated (some r) ws = true) :
    tailText src (some r) ws 6 (ws.drop 6) = ':' :: text4 (src.drop 12) := by
  rw [List.drop_eq_getElem_cons (by omega), tailText, inside_eq_false (.inr hle),
    if_neg Bool.false_ne_true, if_pos (by decide), if_pos ⟨rfl, henc⟩]
  rfl

/-- The groups behind the run. -/
theorem tailText_back (hws : ws.length = 8) (hle : r.base + r.len ≤ 8) (hpos : 0 < r.len) :
    (tailText src (some r) ws (r.base + r.len) (ws.drop (r.base + r.len)) ++
      if some (r.base + r.len) = some 8 then [':'] else []) = ':' :: backText src ws r := by
  rw [backText]
  by_cases henc : encapsulated (some r) ws = true
  · rw [if_pos henc]
    obtain ⟨hbase, hlen | ⟨hlen, hffff⟩⟩ := encapsulated_iff.mp henc
    · have hquad := tailText_quad src hws (by omega) henc
      rw [hbase, hlen, if_pos rfl, hquad]
      simp
    · have hquad := tailText_quad src hws (by omega) henc
      have hget : ws[5] = 0xffff := by rw [← hffff, List.getD_eq_getElem _ _ (by omega)]
      have hfive : ¬(5 = 6 ∧ encapsulated (some r) ws = true) := fun h => absurd h.1 (by decide)
      rw [hbase, hlen, Nat.zero_add, List.drop_eq_getElem_cons (by omega), tailText,
        inside_eq_false (.inr (by omega)), if_neg Bool.false_ne_true, if_pos (by decide),
        if_neg hfive, hquad, hget, show Nat.toDigits 16 0xffff = ['f', 'f', 'f', 'f'] by decide]
      simp
  · rw [if_neg henc]
    rcases Nat.lt_or_ge (r.base + r.len) 8 with hlt | hge
    · have hlen : 0 < (ws.drop (r.base + r.len)).length := by
        rw [List.length_drop]
        omega
      have hgroups := tailText_groups src (some r) ws []
        (ws.drop (r.base + r.len)) (r.base + r.len) (by omega) fun j hge _ =>
          ⟨inside_eq_false (.inr hge), fun h => henc h.2⟩
      obtain ⟨w, us, hw⟩ := List.exists_cons_of_length_pos hlen
      have hnot : ¬some (r.base + r.len) = some 8 := fun h => by
        have := Option.some.inj h
        omega
      rw [List.append_nil, tailText, List.append_nil] at hgroups
      rw [hgroups, hw, joined_cons, List.flatMap_cons, if_neg hnot, List.append_nil,
        List.cons_append]
    · have hend : r.base + r.len = 8 := by omega
      rw [hend, List.drop_eq_nil_of_le (Nat.le_of_eq hws)]
      rfl

end Parts

/-! ### The groups of an address -/

section Words

variable {src : List UInt8} {r : Run}

theorem length_words (src : List UInt8) : (words src).length = 8 := by
  simp [words, in6addrsz, List.range_succ]

/-- The groups, each of two bytes. -/
theorem words_eq (src : List UInt8) : words src = (List.range 8).map fun i =>
    256 * byte src (2 * i) + byte src (2 * i + 1) := by
  have hpair : ∀ i, byte src (2 * i) <<< 8 ||| byte src (2 * i + 1) =
      256 * byte src (2 * i) + byte src (2 * i + 1) := by
    intro i
    have hlt : byte src (2 * i + 1) < 2 ^ 8 := UInt8.toNat_lt _
    rw [← Nat.shiftLeft_add_eq_or_of_lt hlt, Nat.shiftLeft_eq, Nat.mul_comm]
  have hw : words src = (List.range 8).map fun i =>
      byte src (2 * i) <<< 8 ||| byte src (2 * i + 1) := by
    simp [words, in6addrsz, List.range_succ]
  rw [hw]
  exact List.map_congr_left fun i _ => hpair i

theorem lt_of_mem_words {w : ℕ} (h : w ∈ words src) : w < 16 ^ 4 := by
  rw [words_eq] at h
  obtain ⟨i, -, rfl⟩ := List.mem_map.mp h
  have hi : byte src (2 * i) < 256 := UInt8.toNat_lt _
  have hi' : byte src (2 * i + 1) < 256 := UInt8.toNat_lt _
  omega

theorem isRun_of_best {ws : List ℕ} (h : best ws = some r) :
    IsRun (fun i => ws.getD i 0 == 0) 8 r ∧ 2 ≤ r.len := by
  obtain ⟨hlong, hlen⟩ := Option.filter_eq_some_iff.mp h
  exact ⟨isRun_of_longest hlong, by simpa using hlen⟩

/-- **What the loop makes, and the colon behind a run at the end.** -/
theorem tailText_eq_text6 (src : List UInt8) :
    (tailText src (best (words src)) (words src) 0 (words src) ++
      if (best (words src)).map (fun r => r.base + r.len) = some 8 then [':'] else []) =
    text6 src := by
  have hws := length_words src
  rw [text6]
  cases hbest : best (words src) with
  | none =>
    obtain ⟨w, us, hw⟩ := List.exists_cons_of_length_pos (show 0 < (words src).length by omega)
    have hgroups := tailText_groups src none (words src) [] us 1 (by decide)
      fun j _ _ => ⟨rfl, fun h => absurd h.2 Bool.false_ne_true⟩
    rw [List.append_nil, tailText, List.append_nil] at hgroups
    have hall : tailText src none (words src) 0 (w :: us) = joined ':' 16 (w :: us) := by
      rw [tailText, hgroups, joined_cons]
      rfl
    rw [← hw] at hall
    rw [hall]
    exact List.append_nil _
  | some r =>
    obtain ⟨hrun, hlen⟩ := isRun_of_best hbest
    have hle := hrun.le
    rw [tailText_front (by omega), tailText_gap (by omega) hrun.pos, Option.map_some,
      List.append_assoc, List.cons_append, tailText_back hws hle hrun.pos]

theorem length_text6 (src : List UInt8) : (text6 src).length ≤ 39 := by
  have hjoined : ∀ ws : List ℕ, (∀ w ∈ ws, w ∈ words src) →
      (joined ':' 16 ws).length ≤ ws.length * 5 - 1 := fun ws h =>
    length_joined_le (by decide) (by decide) ws fun w hw => lt_of_mem_words (h w hw)
  have hws := length_words src
  rw [text6]
  cases hbest : best (words src) with
  | none =>
    have := hjoined (words src) fun w hw => hw
    simp only
    omega
  | some r =>
    obtain ⟨hrun, hlen⟩ := isRun_of_best hbest
    have hfront := hjoined ((words src).take r.base) fun w hw => List.mem_of_mem_take hw
    have hback := hjoined ((words src).drop (r.base + r.len)) fun w hw => List.mem_of_mem_drop hw
    have hquad := length_text4 (src.drop 12)
    have hle := hrun.le
    rw [List.length_take] at hfront
    rw [List.length_drop] at hback
    simp only [List.length_append, List.length_cons, backText]
    split
    · next henc =>
      obtain ⟨hbase, -⟩ := encapsulated_iff.mp henc
      split <;> simp only [List.length_append, List.length_cons, List.length_nil] <;> omega
    · omega

theorem nul_notMem_text6 (src : List UInt8) : nul ∉ text6 src := by
  have hjoined : ∀ ws, nul ∉ joined ':' 16 ws :=
    nul_notMem_joined (by decide) (by decide) (by decide)
  have hquad := nul_notMem_text4 (src.drop 12)
  rw [text6]
  cases best (words src) with
  | none => exact hjoined _
  | some r =>
    simp only [backText, List.mem_append, List.mem_cons, not_or]
    refine ⟨hjoined _, by decide, by decide, ?_⟩
    split
    · rw [List.mem_append, not_or]
      refine ⟨?_, hquad⟩
      split <;> decide
    · exact hjoined _

end Words

/-! ### What is stored -/

theorem inetNtop6_eq (fr : Frame) (src : List UInt8) (dst : List Char) (size : ℕ) :
    inetNtop6 fr src dst size =
      if (text6 src).length + 1 > size then some none
      else (strcpy nul dst 0 (text6 src)).map some := by
  have hlen := length_text6 src
  have htext := tailText_eq_text6 src
  have hroom : sizeofTmp6 = 46 := rfl
  have hstart : Written [] ⟨fr.tmp6, 0⟩ := ⟨rfl, fr.length_tmp6, fr.tmp6, rfl⟩
  obtain ⟨o₁, hloop, h₁⟩ := formatLoop_eq fr src (best (words src)) (words src) (words src)
    0 [] ⟨fr.tmp6, 0⟩ hstart (by
      have := congrArg List.length htext
      rw [List.length_append] at this
      rw [List.nil_append]
      omega)
  rw [List.nil_append] at h₁
  obtain ⟨o₂, hcolon, h₂⟩ := h₁.putColon
    ((best (words src)).map (fun r => r.base + r.len) = some 8) (by rw [htext]; omega)
  rw [htext] at h₂
  obtain ⟨o₃, hnul, h₃⟩ := h₂.putChar (c := nul) (by omega)
  obtain ⟨rest, htmp⟩ := h₃.tmp_eq
  have hstr : strAt nul o₃.tmp 0 = text6 src := by
    rw [htmp, List.append_assoc]
    exact strAt_eq (nul_notMem_text6 src) List.drop_zero
  have htp : o₃.tp = (text6 src).length + 1 := by rw [h₃.tp_eq, List.length_append]; rfl
  simp only [inetNtop6, hloop, Option.bind_eq_bind, Option.bind_some, hcolon, hnul, hstr, htp]

/-- An address of one of the two families. -/
inductive Address where
  | v4 (a : Vector UInt8 4)
  | v6 (a : Vector UInt8 16)
  deriving DecidableEq, Repr

namespace Address

def family : Address → Family
  | v4 _ => .inet
  | v6 _ => .inet6

def bytes : Address → List UInt8
  | v4 a => a.toList
  | v6 a => a.toList

def text : Address → List Char
  | v4 a => text4 a.toList
  | v6 a => text6 a.toList

theorem length_text (a : Address) : a.text.length ≤ 39 := by
  cases a with
  | v4 a => exact Nat.le_trans (length_text4 _) (by decide)
  | v6 a => exact length_text6 _

theorem nul_notMem_text (a : Address) : nul ∉ a.text := by
  cases a with
  | v4 a => exact nul_notMem_text4 _
  | v6 a => exact nul_notMem_text6 _

end Address

section Stored

variable (fr : Frame) (a : Address)

/-- A text that has room is stored. -/
theorem inetNtop_stored (dst : List Char) (size : ℕ) (hsize : a.text.length < size)
    (hdst : size ≤ dst.length) :
    ∃ dst', inetNtop fr a.family a.bytes dst size = some (.stored dst') ∧
      dst'.length = dst.length ∧ strAt nul dst' 0 = a.text := by
  obtain ⟨rest, hcpy, hlen⟩ := strcpy_zero a.text dst (by omega)
  refine ⟨_, ?_, hlen, strAt_eq a.nul_notMem_text List.drop_zero⟩
  cases a with
  | v4 a =>
    have hfits : ¬(text4 a.toList).length > size := by
      have : (text4 a.toList).length < size := hsize
      omega
    have hcpy : strcpy nul dst 0 (text4 a.toList) = _ := hcpy
    rw [Address.family, Address.bytes, inetNtop, inetNtop4_eq, if_neg hfits, hcpy]
    rfl
  | v6 a =>
    have hfits : ¬(text6 a.toList).length + 1 > size := by
      have : (text6 a.toList).length < size := hsize
      omega
    have hcpy : strcpy nul dst 0 (text6 a.toList) = _ := hcpy
    rw [Address.family, Address.bytes, inetNtop, inetNtop6_eq, if_neg hfits, hcpy]
    rfl

theorem strcpy_eq_none_iff {buf s : List Char} :
    strcpy nul buf 0 s = none ↔ buf.length ≤ s.length := by
  rw [strcpy, ite_eq_right_iff]
  constructor
  · intro h
    by_contra hlt
    cases h (by omega)
  · intro h hle
    omega

/-- The function for IPv4 alone stays inside the memory at `dst`. -/
theorem inetNtopIpv4_ne_none (af : Family) (src : List UInt8) (dst : List Char) :
    inetNtopIpv4 fr af src dst dst.length ≠ none := by
  cases af with
  | inet =>
    have hlen := length_text4 src
    have hfits : Ntop.snprintf sizeofTmp4 (text4 src) = text4 src :=
      List.take_of_length_le (by rw [sizeofTmp4]; omega)
    obtain ⟨rest, hcpy, -⟩ := strcpy_zero (text4 src) fr.tmp4
      (by rw [fr.length_tmp4, sizeofTmp4]; omega)
    have hstr : strAt nul (text4 src ++ nul :: rest) 0 = text4 src :=
      strAt_eq (nul_notMem_text4 src) List.drop_zero
    simp only [inetNtopIpv4, hfits, hcpy, Option.bind_eq_bind, Option.bind_some, hstr]
    split
    · simp
    · rw [ne_eq, Option.map_eq_none_iff, strcpy_eq_none_iff]
      assumption
  | inet6 => simp [inetNtopIpv4]
  | other => simp [inetNtopIpv4]

/-- **When something is written behind `dst`**: `inet_ntop.c` does it for an IPv4 address whose text
has as many characters as there is room for, and `inet_ntop_ipv4.c` never. -/
theorem inetNtop_overrun_iff (dst : List Char) :
    (inetNtop fr a.family a.bytes dst dst.length = none ↔
      a.family = .inet ∧ a.text.length = dst.length) ∧
    inetNtopIpv4 fr a.family a.bytes dst dst.length ≠ none := by
  refine ⟨?_, inetNtopIpv4_ne_none fr _ _ dst⟩
  cases a with
  | v4 a =>
    simp only [Address.family, Address.bytes, Address.text, inetNtop, inetNtop4_eq,
      Option.map_eq_none_iff, true_and]
    split
    · simp only [reduceCtorEq, false_iff]
      omega
    · rw [Option.map_eq_none_iff, strcpy_eq_none_iff]
      omega
  | v6 a =>
    simp only [Address.family, Address.bytes, Address.text, inetNtop, inetNtop6_eq,
      Option.map_eq_none_iff, reduceCtorEq, false_and, iff_false]
    split
    · simp
    · rw [Option.map_eq_none_iff, strcpy_eq_none_iff]
      omega

end Stored

/-- The groups that are left out are the first ones of the longest run of zeros, if there is a run
of two of them at least. -/
theorem text6_longest (src : List UInt8) :
    let zero := fun i => (words src).getD i 0 == 0
    (∃ r, IsRun zero 8 r ∧ 2 ≤ r.len ∧ (∀ r', IsRun zero 8 r' → Beats r r') ∧
      text6 src = joined ':' 16 ((words src).take r.base) ++
        ':' :: ':' :: backText src (words src) r) ∨
    (∀ r', IsRun zero 8 r' → r'.len < 2) ∧ text6 src = joined ':' 16 (words src) := by
  intro zero
  cases hbest : best (words src) with
  | none =>
    refine .inr ⟨fun r' hr' => ?_, by rw [text6, hbest]⟩
    cases hlong : longest zero 8 with
    | none => exact absurd hr' (not_isRun_of_longest hlong)
    | some r =>
      have hshort := Option.filter_eq_none_iff.mp hbest r hlong
      have hbeats := beats_of_longest hlong hr'
      rw [decide_eq_true_iff] at hshort
      rw [Beats] at hbeats
      omega
  | some r =>
    obtain ⟨hrun, hlen⟩ := isRun_of_best hbest
    obtain ⟨hlong, -⟩ := Option.filter_eq_some_iff.mp hbest
    exact .inl ⟨r, hrun, hlen, fun r' hr' => beats_of_longest hlong hr', by rw [text6, hbest]⟩

/-- **`inet_ntop` leaves out the longest run of zeros**, the first one of that length, and only if
there are two groups in it. -/
theorem inetNtop_longest (fr : Frame) (a : Vector UInt8 16) (dst : List Char) (size : ℕ)
    (hsize : 40 ≤ size) (hdst : size ≤ dst.length) :
    ∃ dst', inetNtop fr .inet6 a.toList dst size = some (.stored dst') ∧
      ((∃ r, IsRun (fun i => (words a.toList).getD i 0 == 0) 8 r ∧ 2 ≤ r.len ∧
        (∀ r', IsRun (fun i => (words a.toList).getD i 0 == 0) 8 r' → Beats r r') ∧
        strAt nul dst' 0 = joined ':' 16 ((words a.toList).take r.base) ++
          ':' :: ':' :: backText a.toList (words a.toList) r) ∨
      (∀ r', IsRun (fun i => (words a.toList).getD i 0 == 0) 8 r' → r'.len < 2) ∧
        strAt nul dst' 0 = joined ':' 16 (words a.toList)) := by
  have hroom : (Address.v6 a).text.length < size := by
    have := length_text6 a.toList
    change (text6 a.toList).length < size
    omega
  obtain ⟨dst', hstored, -, htext⟩ := inetNtop_stored fr (.v6 a) dst size hroom hdst
  refine ⟨dst', hstored, ?_⟩
  rw [htext]
  exact text6_longest a.toList

/-- Arrays of zeros. -/
def Frame.blank : Frame :=
  ⟨List.replicate sizeofTmp4 nul, List.replicate sizeofTmp6 nul, rfl, rfl⟩

/-- The unspecified address, `::`. -/
theorem inetNtop_longest_unspecified :
    ∃ dst', inetNtop .blank .inet6 (List.replicate 16 0) (List.replicate 46 nul) 46 =
      some (.stored dst') := by
  obtain ⟨dst', hstored, -⟩ := inetNtop_longest .blank (.replicate 16 0) (List.replicate 46 nul) 46
    (by decide) (by decide)
  exact ⟨dst', hstored⟩

end TcpIp.Inet
