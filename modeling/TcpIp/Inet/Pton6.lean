import Mathlib.Data.Nat.Bitwise
import Mathlib.Tactic.Linarith
import TcpIp.Inet.Pton4

/-!
# IPv6 addresses from text

`inet_pton6` of `libfree` stores each group of an IPv6 address when it sees the colon behind it.
The place of `::` is remembered, and what was stored behind it is moved to the end of the address
when the text has come to its end.  The end of the text may be a dotted quad, which is left to
`inet_pton4`.

The loop over the characters is related to a function on the words between the colons, `fillFrom`.
It is the same with two oddities of the source: a single colon at the end of the text is taken, and
if the address has all its bytes, those behind `::` are not moved but cleared.

## Main definitions

* `inetPton6`, `inetPton` — the functions of the source.
* `group`, `tail`, `fillFrom`, `place` — an IPv6 address from its words.
* `meaning` — the address that a text stands for.

## Main results

* `moveUp_eq` — what the last loop does.
* `inetPton6_eq` — `inet_pton6` gives the meaning of its text, and never writes outside of its
  array.
-/

namespace TcpIp.Inet

open Buffer Numeral

/-! ### The function -/

/-- `IN6ADDRSZ` -/
def in6addrsz : ℕ := 16

/-- `xdigits_l` -/
def xdigitsL : List Char := "0123456789abcdef".toList

/-- `xdigits_u` -/
def xdigitsU : List Char := "0123456789ABCDEF".toList

/-- `pch - xdigits`, where `xdigits` is the first of the two strings that has the character. -/
def xdigit (ch : Char) : Option ℕ := (xdigitsL.idxOf? ch).or (xdigitsU.idxOf? ch)

/-- The variables of `inet_pton6`; the pointers into `tmp` are positions. -/
structure Scan6 where
  tmp : List UInt8
  tp : ℕ
  colonp : Option ℕ
  curtok : List Char
  sawXdigit : Bool
  val : ℕ
  deriving DecidableEq, Repr

/-- `*tp++ = (u_char) (val >> 8) & 0xff; *tp++ = (u_char) val & 0xff;` -/
def storeGroup (tmp : List UInt8) (tp val : ℕ) : Option (List UInt8) := do
  let tmp ← store tmp tp (UInt8.ofNat (val >>> 8))
  store tmp (tp + 1) (UInt8.ofNat val)

/-- The loop of `inet_pton6`.  The inner `none` is for `return (0)`. -/
def pton6Loop (junk : Junk) (st : Scan6) : List Char → Option (Option Scan6)
  | [] => some (some st)
  | ch :: src =>
    match xdigit ch with
    | some d =>
      let val := st.val <<< 4 ||| d
      if val > 0xffff then some none
      else pton6Loop junk { st with val, sawXdigit := true } src
    | none =>
      if ch = ':' then
        let st := { st with curtok := src }
        if st.sawXdigit = false then
          if st.colonp.isSome then some none
          else pton6Loop junk { st with colonp := some st.tp } src
        else if st.tp + 2 > in6addrsz then some none
        else do
          let tmp ← storeGroup st.tmp st.tp st.val
          pton6Loop junk { st with tmp, tp := st.tp + 2, sawXdigit := false, val := 0 } src
      else if ch = '.' ∧ st.tp + 4 ≤ in6addrsz then do
        match ← inetPton4 junk st.curtok with
        | none => some none
        | some bs =>
          -- `break`: all the rest of the text has been read
          let tmp ← storeAll st.tmp st.tp bs
          some (some { st with tmp, tp := st.tp + 4, sawXdigit := false })
      else some none

/-- `endp[- i] = colonp[n - i]; colonp[n - i] = 0;` -/
def moveByte (colonp n : ℕ) (tmp : List UInt8) (i : ℕ) : Option (List UInt8) := do
  let x ← tmp[colonp + (n - i)]?
  let tmp ← store tmp (in6addrsz - i) x
  store tmp (colonp + (n - i)) 0

/-- The same for `i` from 1 to `n`. -/
def moveUp (tmp : List UInt8) (colonp n : ℕ) : Option (List UInt8) :=
  (List.range n).foldlM (fun tmp k => moveByte colonp n tmp (k + 1)) tmp

/-- `if (colonp != NULL) { ... }` and what is behind it. -/
def pton6Place (tmp : List UInt8) (tp : ℕ) (colonp : Option ℕ) : Option (Option (List UInt8)) := do
  let (tmp, tp) ← match colonp with
    | none => some (tmp, tp)
    | some colonp => (moveUp tmp colonp (tp - colonp)).map (·, in6addrsz)
  if tp ≠ in6addrsz then some none else some (some tmp)

/-- What is behind the loop. -/
def pton6End (st : Scan6) : Option (Option (List UInt8)) :=
  if st.sawXdigit = true then
    if st.tp + 2 > in6addrsz then some none
    else do
      let tmp ← storeGroup st.tmp st.tp st.val
      pton6Place tmp (st.tp + 2) st.colonp
  else pton6Place st.tmp st.tp st.colonp

/-- The loop, and what is behind it. -/
def pton6Scan (junk : Junk) (st : Scan6) (src : List Char) : Option (Option (List UInt8)) := do
  match ← pton6Loop junk st src with
  | none => some none
  | some st => pton6End st

/-- `inet_pton6`: the address that is stored in `dst`. -/
def inetPton6 (junk : Junk) (src : List Char) : Option (Option (List UInt8)) :=
  let start (src : List Char) : Scan6 := ⟨List.replicate in6addrsz 0, 0, none, src, false, 0⟩
  match src with
  | ':' :: src => if src.head? ≠ some ':' then some none else pton6Scan junk (start src) src
  | src => pton6Scan junk (start src) src

/-- The address families that `inet_pton` tells apart. -/
inductive Family where
  | inet
  | inet6
  | other
  deriving DecidableEq, Repr

/-- What `inet_pton` returns. -/
inductive PtonRet where
  /-- `1`, with the address in `dst`. -/
  | valid (addr : List UInt8)
  /-- `0` -/
  | invalid
  /-- `-1`, with `EAFNOSUPPORT`. -/
  | unsupported
  deriving DecidableEq, Repr

/-- `inet_pton` -/
def inetPton (junk : Junk) (af : Family) (src : List Char) : Option PtonRet :=
  let ret : Option (List UInt8) → PtonRet
    | some addr => .valid addr
    | none => .invalid
  match af with
  | .inet => (inetPton4 junk src).map ret
  | .inet6 => (inetPton6 junk src).map ret
  | .other => some .unsupported

/-! ### Words -/

/-- A group: some hex digits whose value is at most `0xffff`. -/
def group (w : List Char) : Option ℕ :=
  if w = [] then none else (numeral xdigit 16 w).filter (· ≤ 0xffff)

/-- The two bytes of a group. -/
def groupBytes (n : ℕ) : List UInt8 := [UInt8.ofNat (n >>> 8), UInt8.ofNat n]

/-- The bytes of the last word: a group, a dotted quad or nothing at all. -/
def tail (w : List Char) : Option (List UInt8) :=
  if w = [] then some [] else ((group w).map groupBytes).or (quad (w.splitOn '.'))

/-- The address with the bytes `bs`, where `::` stands behind the first `c` of them. -/
def place (bs : List UInt8) : Option ℕ → Option (List UInt8)
  | none => if bs.length = in6addrsz then some bs else none
  | some c => some (bs.take c ++
      if bs.length = in6addrsz then List.replicate (in6addrsz - c) 0
      else List.replicate (in6addrsz - bs.length) 0 ++ bs.drop c)

/-- An address from the words between the colons, behind the bytes `bs`. -/
def fillFrom (bs : List UInt8) (colonp : Option ℕ) : List (List Char) → Option (List UInt8)
  | [] => none
  | w :: [] => (tail w).bind fun t =>
      if bs.length + t.length ≤ in6addrsz then place (bs ++ t) colonp else none
  | w :: ws =>
    if w = [] then if colonp.isSome then none else fillFrom bs (some bs.length) ws
    else (group w).bind fun n =>
      if bs.length + 2 ≤ in6addrsz then fillFrom (bs ++ groupBytes n) colonp ws else none

/-- The address that a text stands for. -/
def meaning : List Char → Option (List UInt8)
  | ':' :: s => if s.head? = some ':' then fillFrom [] none (s.splitOn ':') else none
  | s => fillFrom [] none (s.splitOn ':')

/-! ### Moving bytes to the end -/

section MoveUp

variable {front mid : List UInt8} {d k : ℕ}

/-- The bytes that have been moved, or cleared if there was no room, when the last `k` bytes of
`mid` have had their turn. -/
def settled (mid : List UInt8) (d k : ℕ) : List UInt8 :=
  if d = 0 then List.replicate k 0 else mid.drop (mid.length - k)

theorem length_settled (hk : k ≤ mid.length) : (settled mid d k).length = k := by
  rw [settled]
  split
  · exact List.length_replicate
  · rw [List.length_drop]
    omega

/-- One byte is moved: it is the last one of those that have not been moved. -/
theorem moveByte_eq (front pre post : List UInt8) (x : UInt8) {n : ℕ}
    (hlen : front.length + pre.length + 1 + d + post.length = in6addrsz)
    (hn : n = pre.length + 1 + post.length) :
    moveByte front.length n (front ++ (pre ++ x :: (List.replicate d 0 ++ post)))
      (post.length + 1) =
    some (front ++ (pre ++
      if d = 0 then 0 :: post else List.replicate d 0 ++ x :: post)) := by
  have hfrom : front.length + (n - (post.length + 1)) = (front ++ pre).length := by
    rw [List.length_append]
    omega
  have hget : (front ++ (pre ++ x :: (List.replicate d 0 ++ post)))[(front ++ pre).length]? =
      some x := by
    rw [← List.append_assoc, List.getElem?_append_right (Nat.le_refl _), Nat.sub_self]
    rfl
  rw [moveByte, hfrom, hget, Option.bind_eq_bind, Option.bind_some]
  cases d with
  | zero =>
    have hpos : in6addrsz - (post.length + 1) = (front ++ pre).length := by
      rw [List.length_append]
      omega
    rw [hpos, if_pos rfl, List.replicate_zero, List.nil_append, ← List.append_assoc,
      store_append, Option.bind_eq_bind, Option.bind_some, store_append, List.append_assoc]
  | succ d =>
    have hpos : in6addrsz - (post.length + 1) =
        (front ++ (pre ++ x :: List.replicate d 0)).length := by
      simp only [List.length_append, List.length_cons, List.length_replicate]
      omega
    have hsplit : front ++ (pre ++ x :: (List.replicate (d + 1) 0 ++ post)) =
        front ++ (pre ++ x :: List.replicate d 0) ++ 0 :: post := by
      rw [List.replicate_succ']
      simp
    have hagain : front ++ (pre ++ x :: List.replicate d 0) ++ x :: post =
        (front ++ pre) ++ x :: (List.replicate d 0 ++ x :: post) := by simp
    rw [hsplit, hpos, store_append, Option.bind_eq_bind, Option.bind_some,
      if_neg (Nat.succ_ne_zero d), hagain, store_append, List.replicate_succ]
    simp

theorem moveUp_range (hlen : front.length + mid.length + d = in6addrsz) :
    ∀ k ≤ mid.length,
      (List.range k).foldlM (fun tmp k => moveByte front.length mid.length tmp (k + 1))
        (front ++ (mid ++ List.replicate d 0)) =
      some (front ++ (mid.take (mid.length - k) ++ (List.replicate d 0 ++ settled mid d k))) := by
  intro k
  induction k with
  | zero =>
    intro _
    simp [settled]
  | succ k ih =>
    intro hk
    have hj : mid.length - (k + 1) < mid.length := by omega
    have hnext : mid.length - k = mid.length - (k + 1) + 1 := by omega
    have hpre : (mid.take (mid.length - (k + 1))).length = mid.length - (k + 1) := by
      rw [List.length_take]
      omega
    have hpost := length_settled (d := d) (show k ≤ mid.length by omega)
    have hstep := moveByte_eq (d := d) (n := mid.length) front (mid.take (mid.length - (k + 1)))
      (settled mid d k) mid[mid.length - (k + 1)] (by omega) (by omega)
    rw [hpost] at hstep
    rw [List.range_succ, List.foldlM_append, ih (by omega), Option.bind_eq_bind, Option.bind_some,
      List.foldlM_cons, hnext, List.take_succ_eq_append_getElem hj, List.append_assoc,
      List.singleton_append, hstep, Option.bind_eq_bind, Option.bind_some, List.foldlM_nil,
      settled, settled, hnext, List.drop_eq_getElem_cons hj]
    split
    · next hd => simp [hd, List.replicate_succ]
    · rfl

/-- **What the last loop does**: the bytes are moved over the free ones behind them; if there are
none they are cleared. -/
theorem moveUp_eq (front mid : List UInt8) (hlen : front.length + mid.length + d = in6addrsz) :
    moveUp (front ++ (mid ++ List.replicate d 0)) front.length mid.length =
      some (front ++ if d = 0 then List.replicate mid.length 0
        else List.replicate d 0 ++ mid) := by
  rw [moveUp, moveUp_range hlen mid.length (Nat.le_refl _), settled, Nat.sub_self, List.take_zero,
    List.nil_append, List.drop_zero]
  split
  · next hd => rw [hd, List.replicate_zero, List.nil_append]
  · rfl

end MoveUp

/-! ### Characters and words -/

section Words

variable {c : Char} {d n : ℕ} {w s : List Char} {r : List UInt8}

theorem xdigit_lt (h : xdigit c = some d) : d < 16 := by
  rcases Option.or_eq_some_iff.mp h with h | ⟨-, h⟩
  · obtain ⟨hlt, -⟩ := List.idxOf?_eq_some_iff.mp h
    exact hlt
  · obtain ⟨hlt, -⟩ := List.idxOf?_eq_some_iff.mp h
    exact hlt

theorem xdigit_of_digit (h : digit c = some d) : xdigit c = some d := by
  have hall : digits.all (fun c => xdigit c == digit c) = true := rfl
  have hmem : c ∈ digits := List.isSome_idxOf?.mp (by rw [digit] at h; rw [h]; rfl)
  rw [eq_of_beq (List.all_eq_true.mp hall c hmem), h]

/-- A decimal number read as a hex one. -/
theorem extend_xdigit : ∀ (w : List Char) (a a' : ℕ), a' ≤ a * a → extend digit 10 a w = some n →
    ∃ m, extend xdigit 16 a' w = some m ∧ m ≤ n * n := by
  intro w
  induction w with
  | nil =>
    intro a a' hle h
    exact ⟨a', rfl, Option.some.inj h ▸ hle⟩
  | cons c w ih =>
    intro a a' hle h
    cases hc : digit c with
    | none =>
      rw [extend_cons_of_none hc] at h
      cases h
    | some d =>
      rw [extend_cons_of_some hc] at h
      rw [extend_cons_of_some (xdigit_of_digit hc)]
      refine ih (10 * a + d) (16 * a' + d) ?_ h
      have hd : d ≤ d * d := Nat.le_mul_self d
      nlinarith

theorem octet_eq_some_iff : octet w = some n ↔ w ≠ [] ∧ numeral digit 10 w = some n ∧ n ≤ 255 := by
  rw [octet]
  by_cases hw : w = []
  · simp [hw]
  · rw [if_neg hw, Option.filter_eq_some_iff, decide_eq_true_iff]
    exact ⟨fun h => ⟨hw, h⟩, fun h => h.2⟩

theorem group_eq_some_iff :
    group w = some n ↔ w ≠ [] ∧ numeral xdigit 16 w = some n ∧ n ≤ 0xffff := by
  rw [group]
  by_cases hw : w = []
  · simp [hw]
  · rw [if_neg hw, Option.filter_eq_some_iff, decide_eq_true_iff]
    exact ⟨fun h => ⟨hw, h⟩, fun h => h.2⟩

theorem group_eq_none_of_mem (hc : xdigit c = none) (hmem : c ∈ w) : group w = none := by
  cases hg : group w with
  | none => rfl
  | some n => exact absurd hmem (notMem_of_none (group_eq_some_iff.mp hg).2.1 hc)

/-- The words of a dotted quad are octets, and it has four bytes. -/
theorem quad_eq_some {ws : List (List Char)} (h : quad ws = some r) :
    (∀ w ∈ ws, ∃ n, octet w = some n) ∧ r.length = 4 := by
  rw [quad.eq_def] at h
  split at h
  · next w₁ w₂ w₃ w₄ =>
    simp only [Option.bind_eq_bind, Option.bind_eq_some_iff, Option.pure_def,
      Option.some.injEq] at h
    obtain ⟨n₁, h₁, n₂, h₂, n₃, h₃, n₄, h₄, rfl⟩ := h
    refine ⟨?_, rfl⟩
    simp only [List.forall_mem_cons]
    exact ⟨⟨n₁, h₁⟩, ⟨n₂, h₂⟩, ⟨n₃, h₃⟩, ⟨n₄, h₄⟩, by simp⟩
  · cases h

/-- The characters of a dotted quad. -/
theorem mem_of_quad (h : quad (s.splitOn '.') = some r) (hc : c ∈ s) :
    (digit c).isSome = true ∨ c = '.' := by
  by_cases hdot : c = '.'
  · exact .inr hdot
  · obtain ⟨w, hw, hcw⟩ := exists_mem_splitOn hdot s hc
    obtain ⟨n, hn⟩ := (quad_eq_some h).1 w hw
    exact .inl (isSome_of_mem w 0 (octet_eq_some_iff.mp hn).2.1 hcw)

theorem quad_eq_none_of_mem (hc : digit c = none) (hdot : c ≠ '.') (hmem : c ∈ s) :
    quad (s.splitOn '.') = none := by
  cases hq : quad (s.splitOn '.') with
  | none => rfl
  | some r =>
    rcases mem_of_quad hq hmem with hsome | h
    · rw [hc] at hsome
      cases hsome
    · exact absurd h hdot

/-- The first octet of a dotted quad is not too large for a group, when it is read as one. -/
theorem quad_eq_none_of_large {p : List Char} {v : ℕ} (hp : numeral xdigit 16 p = some v)
    (hv : 0xffff < v) : quad ((p ++ s).splitOn '.') = none := by
  cases hq : quad ((p ++ s).splitOn '.') with
  | none => rfl
  | some r =>
    obtain ⟨w, ws, -, hsplit⟩ := splitOn_append_of_notMem s p
      (notMem_of_none (c := '.') hp (by decide))
    have hwords := (quad_eq_some hq).1
    rw [hsplit, List.forall_mem_cons] at hwords
    obtain ⟨⟨n, hn⟩, -⟩ := hwords
    obtain ⟨-, hnum, hle⟩ := octet_eq_some_iff.mp hn
    obtain ⟨m, hm, hmle⟩ := extend_xdigit (p ++ w) 0 0 (Nat.le_refl 0) hnum
    rw [extend_append, show extend xdigit 16 0 p = some v from hp, Option.bind_some] at hm
    have hvm := le_extend (by decide) w v hm
    have hsq : n * n ≤ 255 * 255 := Nat.mul_le_mul hle hle
    omega

theorem group_eq_none_of_large {p : List Char} {v : ℕ} (hp : numeral xdigit 16 p = some v)
    (hv : 0xffff < v) : group (p ++ w) = none := by
  cases hg : group (p ++ w) with
  | none => rfl
  | some n =>
    obtain ⟨-, hnum, hle⟩ := group_eq_some_iff.mp hg
    have hp : extend xdigit 16 0 p = some v := hp
    rw [numeral, extend_append, hp, Option.bind_some] at hnum
    have hvn := le_extend (by decide) w v hnum
    omega

end Words

/-! ### The loop -/

section Loop

attribute [local simp] pton6Loop fillFrom

/-- The state of the loop: the bytes that are stored, the place of `::`, and the digits of the
group that is being read, in front of the rest of the text. -/
structure Reading6 (bs : List UInt8) (colonp : Option ℕ) (p s : List Char) (st : Scan6) :
    Prop where
  tmp_eq : st.tmp = bs ++ List.replicate (in6addrsz - bs.length) 0
  length_le : bs.length ≤ in6addrsz
  tp_eq : st.tp = bs.length
  colonp_eq : st.colonp = colonp
  colonp_le : ∀ c, colonp = some c → c ≤ bs.length
  curtok_eq : st.curtok = p ++ s
  saw_eq : st.sawXdigit = true ↔ p ≠ []
  val_eq : numeral xdigit 16 p = some st.val
  val_le : st.val ≤ 0xffff

variable {junk : Junk} {bs : List UInt8} {colonp : Option ℕ} {p s : List Char} {st : Scan6}

/-- Some bytes are stored behind those that are there. -/
theorem storeAll_replicate (bs t : List UInt8) (h : bs.length + t.length ≤ in6addrsz) :
    storeAll (bs ++ List.replicate (in6addrsz - bs.length) 0) bs.length t =
      some (bs ++ t ++ List.replicate (in6addrsz - (bs ++ t).length) 0) := by
  have hsplit : List.replicate (in6addrsz - bs.length) (0 : UInt8) =
      List.replicate t.length 0 ++ List.replicate (in6addrsz - (bs ++ t).length) 0 := by
    rw [List.replicate_append_replicate, List.length_append]
    congr 1
    omega
  rw [hsplit, storeAll_append List.length_replicate.symm, List.append_assoc]

theorem storeGroup_replicate {n : ℕ} (h : bs.length + 2 ≤ in6addrsz) :
    storeGroup (bs ++ List.replicate (in6addrsz - bs.length) 0) bs.length n =
      some (bs ++ groupBytes n ++ List.replicate (in6addrsz - (bs ++ groupBytes n).length) 0) := by
  obtain ⟨k, hk⟩ : ∃ k, in6addrsz - bs.length = k + 1 + 1 := ⟨in6addrsz - bs.length - 2, by omega⟩
  have hlen : in6addrsz - (bs ++ groupBytes n).length = k := by
    rw [List.length_append, groupBytes, List.length_cons, List.length_singleton]
    omega
  have hone : (bs ++ [UInt8.ofNat (n >>> 8)]).length = bs.length + 1 := by simp
  rw [hlen, hk, List.replicate_succ, List.replicate_succ, storeGroup, store_append,
    Option.bind_eq_bind, Option.bind_some, ← hone]
  have hsplit : bs ++ UInt8.ofNat (n >>> 8) :: 0 :: List.replicate k 0 =
      (bs ++ [UInt8.ofNat (n >>> 8)]) ++ 0 :: List.replicate k 0 := by simp
  rw [hsplit, store_append]
  simp [groupBytes]

/-- The bytes are put in their places. -/
theorem pton6Place_eq (bs : List UInt8) (colonp : Option ℕ) (hle : bs.length ≤ in6addrsz)
    (hc : ∀ c, colonp = some c → c ≤ bs.length) :
    pton6Place (bs ++ List.replicate (in6addrsz - bs.length) 0) bs.length colonp =
      some (place bs colonp) := by
  cases colonp with
  | none =>
    rw [pton6Place, place]
    by_cases hfull : bs.length = in6addrsz
    · simp [hfull]
    · simp [hfull]
  | some c =>
    have hcle := hc c rfl
    have htake : (bs.take c).length = c := by
      rw [List.length_take]
      omega
    have hdrop : (bs.drop c).length = bs.length - c := List.length_drop
    have hmove := moveUp_eq (d := in6addrsz - bs.length) (bs.take c) (bs.drop c) (by omega)
    rw [htake, hdrop, ← List.append_assoc, List.take_append_drop] at hmove
    rw [pton6Place, hmove, place]
    by_cases hfull : bs.length = in6addrsz
    · simp [hfull]
    · have hroom : in6addrsz - bs.length ≠ 0 := by omega
      simp [hfull, hroom]

/-- The end of the text. -/
theorem Reading6.scan_nil (h : Reading6 bs colonp p [] st) :
    pton6Scan junk st [] = some (fillFrom bs colonp [p]) := by
  have hend : pton6Scan junk st [] = pton6End st := rfl
  rw [hend, pton6End, fillFrom, h.tmp_eq, h.tp_eq, h.colonp_eq]
  by_cases hp : p = []
  · have hsaw : ¬ st.sawXdigit = true := fun hsaw => h.saw_eq.mp hsaw hp
    rw [if_neg hsaw, pton6Place_eq bs colonp h.length_le h.colonp_le]
    simp [tail, hp, h.length_le]
  · have hgroup : group p = some st.val := group_eq_some_iff.mpr ⟨hp, h.val_eq, h.val_le⟩
    have htail : tail p = some (groupBytes st.val) := by
      rw [tail, if_neg hp, hgroup]
      rfl
    have htwo : (groupBytes st.val).length = 2 := rfl
    rw [if_pos (h.saw_eq.mpr hp), htail, Option.bind_some, htwo]
    by_cases hroom : bs.length + 2 ≤ in6addrsz
    · have hlen : (bs ++ groupBytes st.val).length = bs.length + 2 := by
        rw [List.length_append, htwo]
      have hplace := pton6Place_eq (bs ++ groupBytes st.val) colonp (by omega) fun c hc => by
        have := h.colonp_le c hc
        omega
      rw [if_neg (Nat.not_lt.mpr hroom), if_pos hroom, storeGroup_replicate hroom,
        Option.bind_eq_bind, Option.bind_some, ← hlen, hplace]
    · rw [if_pos (Nat.not_le.mp hroom), if_neg hroom]

/-- A first word that is no group, nor the dotted quad at the end. -/
theorem fillFrom_eq_none {w : List Char} {ws : List (List Char)} (hgroup : group w = none)
    (hquad : ws = [] → quad (w.splitOn '.') = none) (hw : w ≠ []) :
    fillFrom bs colonp (w :: ws) = none := by
  cases ws with
  | nil => simp [fillFrom, tail, hw, hgroup, hquad rfl]
  | cons w' ws => simp [fillFrom, hw, hgroup]

/-- `::`, or a colon at the start. -/
theorem fillFrom_nil_cons {ws : List (List Char)} (hws : ws ≠ []) :
    fillFrom bs colonp ([] :: ws) =
      if colonp.isSome then none else fillFrom bs (some bs.length) ws := by
  obtain ⟨w, ws, rfl⟩ := List.exists_cons_of_ne_nil hws
  rw [fillFrom, if_pos rfl]
  exact List.cons_ne_nil w ws

/-- A group and the colon behind it. -/
theorem fillFrom_cons {w : List Char} {ws : List (List Char)} (hw : w ≠ []) (hws : ws ≠ []) :
    fillFrom bs colonp (w :: ws) = (group w).bind fun n =>
      if bs.length + 2 ≤ in6addrsz then fillFrom (bs ++ groupBytes n) colonp ws else none := by
  obtain ⟨w', ws, rfl⟩ := List.exists_cons_of_ne_nil hws
  rw [fillFrom, if_neg hw]
  exact List.cons_ne_nil w' ws

theorem shift_val {ch : Char} {d : ℕ} (hd : xdigit ch = some d) (val : ℕ) :
    val <<< 4 ||| d = 16 * val + d := by
  rw [← Nat.shiftLeft_add_eq_or_of_lt (xdigit_lt hd), Nat.shiftLeft_eq]
  omega

/-- A hex digit. -/
theorem Reading6.scan_xdigit {ch : Char} {d : ℕ} (h : Reading6 bs colonp p (ch :: s) st)
    (junk : Junk) (hd : xdigit ch = some d) (hval : 16 * st.val + d ≤ 0xffff) :
    ∃ st', pton6Scan junk st (ch :: s) = pton6Scan junk st' s ∧
      Reading6 bs colonp (p ++ [ch]) s st' := by
  refine ⟨{ st with val := 16 * st.val + d, sawXdigit := true }, ?_, ?_⟩
  · rw [pton6Scan, pton6Loop, hd]
    simp only [shift_val hd, if_neg (Nat.not_lt.mpr hval)]
    rfl
  · refine { h with
      curtok_eq := ?_
      saw_eq := by simp
      val_eq := numeral_concat h.val_eq hd
      val_le := hval }
    rw [h.curtok_eq, List.append_assoc, List.singleton_append]

/-- A hex digit that makes the group too large. -/
theorem scan_large {ch : Char} {d : ℕ} (hd : xdigit ch = some d)
    (hval : 0xffff < 16 * st.val + d) : pton6Scan junk st (ch :: s) = some none := by
  rw [pton6Scan, pton6Loop, hd]
  simp only [shift_val hd, if_pos hval]
  rfl

/-- A colon with no group in front of it. -/
theorem Reading6.scan_gap (h : Reading6 bs none [] (':' :: s) st) (junk : Junk) :
    ∃ st', pton6Scan junk st (':' :: s) = pton6Scan junk st' s ∧
      Reading6 bs (some bs.length) [] s st' := by
  have hsaw : st.sawXdigit = false := by simpa using h.saw_eq
  refine ⟨{ st with curtok := s, colonp := some bs.length }, ?_, ?_⟩
  · rw [pton6Scan, pton6Loop, show xdigit ':' = none from rfl]
    simp only [hsaw, h.colonp_eq, h.tp_eq, if_true, Option.isSome_none, Bool.false_eq_true,
      if_false]
    rfl
  · exact { h with
      colonp_eq := rfl
      colonp_le := fun c hc => Nat.le_of_eq (Option.some.inj hc).symm
      curtok_eq := rfl }

/-- The same for the second time. -/
theorem Reading6.scan_gap_again {c : ℕ} (h : Reading6 bs (some c) [] (':' :: s) st) :
    pton6Scan junk st (':' :: s) = some none := by
  have hsaw : st.sawXdigit = false := by simpa using h.saw_eq
  rw [pton6Scan, pton6Loop, show xdigit ':' = none from rfl]
  simp only [hsaw, h.colonp_eq, if_true, Option.isSome_some]
  rfl

/-- A group and the colon behind it. -/
theorem Reading6.scan_colon (h : Reading6 bs colonp p (':' :: s) st) (junk : Junk) (hp : p ≠ [])
    (hroom : bs.length + 2 ≤ in6addrsz) :
    ∃ st', pton6Scan junk st (':' :: s) = pton6Scan junk st' s ∧
      Reading6 (bs ++ groupBytes st.val) colonp [] s st' := by
  have hsaw : st.sawXdigit = true := h.saw_eq.mpr hp
  have hlen : (bs ++ groupBytes st.val).length = bs.length + 2 := by
    rw [List.length_append]
    rfl
  refine ⟨⟨bs ++ groupBytes st.val ++
    List.replicate (in6addrsz - (bs ++ groupBytes st.val).length) 0, bs.length + 2, colonp, s,
    false, 0⟩, ?_, ?_⟩
  · rw [pton6Scan, pton6Loop, show xdigit ':' = none from rfl]
    simp only [hsaw, h.tp_eq, h.tmp_eq, h.colonp_eq, if_true, Bool.true_eq_false, if_false,
      if_neg (Nat.not_lt.mpr hroom), storeGroup_replicate hroom, Option.bind_eq_bind,
      Option.bind_some]
    rfl
  · refine ⟨rfl, by omega, hlen.symm, rfl, ?_, rfl, by simp, rfl, Nat.zero_le _⟩
    intro c hc
    have := h.colonp_le c hc
    omega

/-- The same when there is no room for the group. -/
theorem Reading6.scan_colon_full (h : Reading6 bs colonp p (':' :: s) st) (hp : p ≠ [])
    (hroom : ¬ bs.length + 2 ≤ in6addrsz) : pton6Scan junk st (':' :: s) = some none := by
  have hsaw : st.sawXdigit = true := h.saw_eq.mpr hp
  rw [pton6Scan, pton6Loop, show xdigit ':' = none from rfl]
  simp only [hsaw, h.tp_eq, if_true, Bool.true_eq_false, if_false, if_pos (Nat.not_le.mp hroom)]
  rfl

/-- A dot: the rest of the text, with the digits in front of the dot, is read by `inet_pton4`. -/
theorem Reading6.scan_dot (h : Reading6 bs colonp p ('.' :: s) st) :
    pton6Scan junk st ('.' :: s) = some ((quad ((p ++ '.' :: s).splitOn '.')).bind fun t =>
      if bs.length + t.length ≤ in6addrsz then place (bs ++ t) colonp else none) := by
  rw [pton6Scan, pton6Loop, show xdigit '.' = none from rfl]
  simp only [show ('.' = ':') = False by simp, if_false, true_and, h.tp_eq, h.curtok_eq,
    inetPton4_eq, Option.bind_eq_bind, Option.bind_some]
  cases hq : quad ((p ++ '.' :: s).splitOn '.') with
  | none => simp
  | some t =>
    have hfour : t.length = 4 := (quad_eq_some hq).2
    by_cases hroom : bs.length + 4 ≤ in6addrsz
    · have hlen : (bs ++ t).length = bs.length + 4 := by rw [List.length_append, hfour]
      have hplace := pton6Place_eq (bs ++ t) colonp (by omega)
        fun c hc => (by have := h.colonp_le c hc; omega)
      have hstore := storeAll_replicate bs t (by omega)
      rw [hlen] at hplace hstore
      simp only [hroom, if_true, h.tmp_eq, hstore, Option.bind_some, pton6End, h.colonp_eq, hfour,
        Bool.false_eq_true, if_false, hplace]
    · simp [hroom, hfour]

/-- Any other character. -/
theorem scan_other {ch : Char} (hd : xdigit ch = none) (hcolon : ch ≠ ':') (hdot : ch ≠ '.') :
    pton6Scan junk st (ch :: s) = some none := by
  rw [pton6Scan, pton6Loop, hd]
  simp only [if_neg hcolon, if_neg fun hand : _ ∧ _ => hdot hand.1]
  rfl

/-- **The loop reads words.** -/
theorem pton6Scan_eq : ∀ (s : List Char) (bs : List UInt8) (colonp : Option ℕ) (p : List Char)
    (st : Scan6), Reading6 bs colonp p s st →
    pton6Scan junk st s = some (fillFrom bs colonp ((p ++ s).splitOn ':')) := by
  intro s
  induction s with
  | nil =>
    intro bs colonp p st h
    have hcolon : ':' ∉ p := notMem_of_none h.val_eq (by decide)
    rw [h.scan_nil, List.append_nil, List.splitOn_eq_singleton hcolon]
  | cons ch s ih =>
    intro bs colonp p st h
    have hcolon : ':' ∉ p := notMem_of_none h.val_eq (by decide)
    cases hd : xdigit ch with
    | some d =>
      by_cases hval : 16 * st.val + d ≤ 0xffff
      · obtain ⟨st', hscan, hst⟩ := h.scan_xdigit junk hd hval
        rw [hscan, ih _ _ _ _ hst, List.append_assoc, List.singleton_append]
      · have hlarge := Nat.not_le.mp hval
        have hnum := numeral_concat h.val_eq hd
        obtain ⟨w, ws, hs, hsplit⟩ := splitOn_append_of_notMem s (p ++ [ch])
          (notMem_of_none (c := ':') hnum (by decide))
        rw [List.append_assoc, List.singleton_append] at hsplit
        rw [scan_large hd hlarge, hsplit,
          fillFrom_eq_none (group_eq_none_of_large hnum hlarge)
            (fun _ => quad_eq_none_of_large hnum hlarge) (by simp)]
    | none =>
      by_cases hch : ch = ':'
      · subst hch
        rw [List.splitOn_append_cons_self_of_not_mem hcolon]
        by_cases hp : p = []
        · subst hp
          rw [fillFrom_nil_cons (List.splitOn_ne_nil ':' s)]
          cases colonp with
          | some c =>
            rw [h.scan_gap_again]
            rfl
          | none =>
            obtain ⟨st', hscan, hst⟩ := h.scan_gap junk
            rw [hscan, ih _ _ _ _ hst]
            rfl
        · have hgroup : group p = some st.val := group_eq_some_iff.mpr ⟨hp, h.val_eq, h.val_le⟩
          rw [fillFrom_cons hp (List.splitOn_ne_nil ':' s), hgroup, Option.bind_some]
          by_cases hroom : bs.length + 2 ≤ in6addrsz
          · obtain ⟨st', hscan, hst⟩ := h.scan_colon junk hp hroom
            rw [hscan, ih _ _ _ _ hst, if_pos hroom, List.nil_append]
          · rw [h.scan_colon_full hp hroom, if_neg hroom]
      · obtain ⟨w, ws, hs, hcons⟩ := splitOn_cons_of_ne hch s
        obtain ⟨w', ws', hs', hsplit⟩ := splitOn_append_of_notMem (ch :: s) p hcolon
        rw [hcons] at hs'
        obtain ⟨rfl, rfl⟩ := List.cons.inj hs'
        have hne : p ++ ch :: w ≠ [] := by simp
        have hgroup : group (p ++ ch :: w) = none := group_eq_none_of_mem hd (by simp)
        rw [hsplit]
        by_cases hdot : ch = '.'
        · subst hdot
          rw [h.scan_dot]
          cases ws with
          | nil =>
            have hall : [':'].intercalate (s.splitOn ':') = s := List.intercalate_splitOn ':'
            rw [hs, List.intercalate_singleton] at hall
            rw [← hall, fillFrom, tail, if_neg hne, hgroup]
            rfl
          | cons w' ws =>
            -- there is another colon, which `inet_pton4` does not take
            have hmem : ':' ∈ s := by
              by_contra hnot
              rw [List.splitOn_eq_singleton hnot] at hs
              cases hs
            have hmem' : ':' ∈ p ++ '.' :: s := by simp [hmem]
            rw [quad_eq_none_of_mem (by decide) (by decide) hmem', Option.bind_none,
              fillFrom_eq_none hgroup (fun hnil => absurd hnil (List.cons_ne_nil w' ws)) hne]
        · have hdigit : digit ch = none := by
            cases hdig : digit ch with
            | none => rfl
            | some d =>
              rw [xdigit_of_digit hdig] at hd
              cases hd
          rw [scan_other hd hch hdot, fillFrom_eq_none hgroup
            (fun _ => quad_eq_none_of_mem hdigit hdot (by simp)) hne]

end Loop

/-- **`inet_pton6` gives the meaning of its text**, and never writes outside of its array. -/
theorem inetPton6_eq (junk : Junk) (s : List Char) : inetPton6 junk s = some (meaning s) := by
  have hstart : ∀ s, Reading6 [] none [] s ⟨List.replicate in6addrsz 0, 0, none, s, false, 0⟩ :=
    fun s => ⟨rfl, Nat.zero_le _, rfl, rfl, fun _ hc => (by cases hc), rfl, by simp, rfl,
      Nat.zero_le _⟩
  have hscan : ∀ s, pton6Scan junk ⟨List.replicate in6addrsz 0, 0, none, s, false, 0⟩ s =
      some (fillFrom [] none (s.splitOn ':')) := fun s => pton6Scan_eq s _ _ _ _ (hstart s)
  rw [inetPton6.eq_def, meaning.eq_def]
  simp only [hscan]
  split
  · next s =>
    by_cases hhead : s.head? = some ':'
    · simp [hhead]
    · simp [hhead]
  · rfl

end TcpIp.Inet
