import Mathlib.Data.Nat.Bitwise
import TcpIp.Lib.Buffer
import TcpIp.Lib.Numeral

/-!
# IPv4 addresses from text

`inet_pton4` of `libfree` reads an IPv4 address from its first character to its last one, with the
octet so far kept where it will stand.

A text is the list of its characters up to the terminator.  The function writes to an array of its
own, and the model fails if it writes outside of it; that it does not is part of what is shown here:
over the words of the text it is the function `quad`.

## Main definitions

* `inetPton4` — the function of the source.
* `octet`, `quad` — an octet, and a dotted quad, from words.

## Main results

* `inetPton4_eq` — `inet_pton4` is `quad` on the words between the dots.
-/

namespace TcpIp.Inet

open Buffer Numeral

/-! ### Arrays -/

/-- `array[i] = x`.  The value is `none` if that is outside of the array. -/
def store (array : List UInt8) (i : ℕ) (x : UInt8) : Option (List UInt8) :=
  if i < array.length then some (array.set i x) else none

/-- `memcpy(array + i, bs, n)`. -/
def storeAll (array : List UInt8) (i : ℕ) (bs : List UInt8) : Option (List UInt8) :=
  if i + bs.length ≤ array.length then some (writeAt array i bs) else none

section Arrays

variable {front rest bs : List UInt8} {x y : UInt8}

theorem store_append : store (front ++ y :: rest) front.length x = some (front ++ x :: rest) := by
  have hlt : front.length < (front ++ y :: rest).length := by simp
  rw [store, if_pos hlt, List.set_append_right front.length x (Nat.le_refl _), Nat.sub_self,
    List.set_cons_zero]

theorem storeAll_append {old : List UInt8} (h : bs.length = old.length) :
    storeAll (front ++ (old ++ rest)) front.length bs = some (front ++ (bs ++ rest)) := by
  have hle : front.length + bs.length ≤ (front ++ (old ++ rest)).length := by
    simp only [List.length_append]
    omega
  rw [storeAll, if_pos hle, writeAt_append h]

end Arrays

/-! ### Dotted quads -/

/-- The four bytes of an array that have not been set. -/
structure Junk where
  bytes : List UInt8
  length_eq : bytes.length = 4

/-- The variables of `inet_pton4`. -/
structure Scan4 where
  sawDigit : Bool
  octets : ℕ
  tmp : List UInt8
  tp : ℕ
  deriving DecidableEq, Repr

/-- `digits` -/
def digits : List Char := "0123456789".toList

/-- The loop of `inet_pton4`, and what is behind it.  The inner `none` is for `return (0)`. -/
def pton4Loop (st : Scan4) : List Char → Option (Option (List UInt8))
  | [] => if st.octets < 4 then some none else some (some st.tmp)
  | ch :: src =>
    match digits.idxOf? ch with
    | some d => do
      let cur ← st.tmp[st.tp]?
      let new := cur.toNat * 10 + d
      if new > 255 then some none
      else do
        let tmp ← store st.tmp st.tp (UInt8.ofNat new)
        if st.sawDigit = false then
          if st.octets + 1 > 4 then some none
          else pton4Loop { st with tmp, octets := st.octets + 1, sawDigit := true } src
        else pton4Loop { st with tmp } src
    | none =>
      if ch = '.' ∧ st.sawDigit = true then
        if st.octets = 4 then some none
        else do
          let tmp ← store st.tmp (st.tp + 1) 0
          pton4Loop { st with tmp, tp := st.tp + 1, sawDigit := false } src
      else some none

/-- `inet_pton4`: the address that is stored in `dst`. -/
def inetPton4 (junk : Junk) (src : List Char) : Option (Option (List UInt8)) := do
  let tmp ← store junk.bytes 0 0
  pton4Loop ⟨false, 0, tmp, 0⟩ src

/-- The value of a decimal digit. -/
def digit (c : Char) : Option ℕ := digits.idxOf? c

/-- An octet: some digits whose value is at most 255. -/
def octet (w : List Char) : Option ℕ :=
  if w = [] then none else (numeral digit 10 w).filter (· ≤ 255)

/-- A dotted quad from its words. -/
def quad : List (List Char) → Option (List UInt8)
  | [w₁, w₂, w₃, w₄] => do
    let n₁ ← octet w₁
    let n₂ ← octet w₂
    let n₃ ← octet w₃
    let n₄ ← octet w₄
    return [n₁, n₂, n₃, n₄].map UInt8.ofNat
  | _ => none

section Quad

/-- What the loop makes of the words to come, the first of them begun already: the octets in
front of it, its value so far, and whether a digit has been seen. -/
def quadFrom (ns : List ℕ) (cur : ℕ) (saw : Bool) : List (List Char) → Option (List UInt8)
  | [] => none
  | w :: ws =>
    if saw = false ∧ w = [] then none
    else ((extend digit 10 cur w).filter (· ≤ 255)).bind fun n =>
      match ws with
      | [] => if ns.length = 3 then some ((ns ++ [n]).map UInt8.ofNat) else none
      | ws => if ns.length = 3 then none else quadFrom (ns ++ [n]) 0 false ws

/-- A word that is not empty. -/
theorem quadFrom_of_digit {cur : ℕ} {saw : Bool} (ns : List ℕ) {w : List Char}
    (ws : List (List Char)) (h : saw = true ∨ w ≠ []) :
    quadFrom ns cur saw (w :: ws) =
      ((extend digit 10 cur w).filter (· ≤ 255)).bind fun n =>
        match ws with
        | [] => if ns.length = 3 then some ((ns ++ [n]).map UInt8.ofNat) else none
        | ws => if ns.length = 3 then none else quadFrom (ns ++ [n]) 0 false ws := by
  have hnot : ¬ (saw = false ∧ w = []) := by
    rintro ⟨rfl, rfl⟩
    simp at h
  rw [quadFrom, if_neg hnot]

theorem quadFrom_cons (ns : List ℕ) (w : List Char) (ws : List (List Char)) :
    quadFrom ns 0 false (w :: ws) = (octet w).bind fun n =>
      match ws with
      | [] => if ns.length = 3 then some ((ns ++ [n]).map UInt8.ofNat) else none
      | ws => if ns.length = 3 then none else quadFrom (ns ++ [n]) 0 false ws := by
  by_cases hw : w = []
  · simp [quadFrom, octet, hw]
  · rw [quadFrom_of_digit ns ws (.inr hw), octet, if_neg hw, numeral]

theorem quadFrom_eq_quad (ws : List (List Char)) : quadFrom [] 0 false ws = quad ws := by
  rcases ws with _ | ⟨w₁, _ | ⟨w₂, _ | ⟨w₃, _ | ⟨w₄, _ | ⟨w₅, ws⟩⟩⟩⟩⟩
  · rfl
  all_goals simp [quadFrom_cons, quad]

/-- The state of the loop: the octets read, the one that is being read, and bytes that are not
used yet. -/
structure Reading (ns : List ℕ) (cur : ℕ) (saw : Bool) (st : Scan4) : Prop where
  saw_eq : st.sawDigit = saw
  octets_eq : st.octets = ns.length + if saw then 1 else 0
  tp_eq : st.tp = ns.length
  tmp_eq : ∃ rest, st.tmp = ns.map UInt8.ofNat ++ UInt8.ofNat cur :: rest ∧
    ns.length + 1 + rest.length = 4
  cur_le : cur ≤ 255
  cur_eq : saw = false → cur = 0

variable {ns : List ℕ} {cur : ℕ} {saw : Bool} {st : Scan4}

theorem Reading.get (h : Reading ns cur saw st) : st.tmp[st.tp]? = some (UInt8.ofNat cur) := by
  obtain ⟨rest, htmp, -⟩ := h.tmp_eq
  rw [htmp, h.tp_eq, List.getElem?_append_right (by simp)]
  simp

theorem Reading.length_le (h : Reading ns cur saw st) : ns.length ≤ 3 := by
  obtain ⟨rest, -, hlen⟩ := h.tmp_eq
  omega

/-- Another digit of the octet. -/
theorem Reading.digit {new : ℕ} (h : Reading ns cur saw st) (hnew : new ≤ 255) :
    ∃ tmp, store st.tmp st.tp (UInt8.ofNat new) = some tmp ∧
      Reading ns new true { st with tmp, octets := ns.length + 1, sawDigit := true } := by
  obtain ⟨rest, htmp, hlen⟩ := h.tmp_eq
  have hstore : store st.tmp st.tp (UInt8.ofNat new) =
      some (ns.map UInt8.ofNat ++ UInt8.ofNat new :: rest) := by
    have hat := @store_append (ns.map UInt8.ofNat) rest (UInt8.ofNat new) (UInt8.ofNat cur)
    rw [List.length_map] at hat
    rw [htmp, h.tp_eq, hat]
  exact ⟨_, hstore, rfl, rfl, h.tp_eq, ⟨rest, rfl, hlen⟩, hnew, fun hsaw => (by cases hsaw)⟩

/-- The dot behind an octet that is not the last one. -/
theorem Reading.dot (h : Reading ns cur true st) (hlt : ns.length < 3) :
    ∃ tmp, store st.tmp (st.tp + 1) 0 = some tmp ∧
      Reading (ns ++ [cur]) 0 false { st with tmp, tp := st.tp + 1, sawDigit := false } := by
  obtain ⟨rest, htmp, hlen⟩ := h.tmp_eq
  obtain ⟨y, rest, rfl⟩ := List.exists_cons_of_length_pos (show 0 < rest.length by omega)
  have hsplit : st.tmp = (ns ++ [cur]).map UInt8.ofNat ++ y :: rest := by
    rw [htmp]
    simp
  have hlen' : ((ns ++ [cur]).map UInt8.ofNat).length = st.tp + 1 := by
    rw [h.tp_eq]
    simp
  have hstore : store st.tmp (st.tp + 1) 0 =
      some ((ns ++ [cur]).map UInt8.ofNat ++ UInt8.ofNat 0 :: rest) := by
    rw [hsplit, ← hlen', store_append]
    rfl
  refine ⟨_, hstore, rfl, ?_, ?_, ⟨rest, rfl, ?_⟩, Nat.zero_le _, fun _ => rfl⟩
  · simp [h.octets_eq]
  · simp [h.tp_eq]
  · simp only [List.length_append, List.length_cons, List.length_nil] at hlen ⊢
    omega

/-- A digit of an octet that does not get too large. -/
theorem Reading.step_digit {ch : Char} {d : ℕ} {s : List Char} (h : Reading ns cur saw st)
    (hd : digits.idxOf? ch = some d) (hnew : cur * 10 + d ≤ 255) :
    ∃ st', pton4Loop st (ch :: s) = pton4Loop st' s ∧ Reading ns (cur * 10 + d) true st' := by
  obtain ⟨tmp, hstore, hst⟩ := h.digit hnew
  refine ⟨_, ?_, hst⟩
  have hcur : (UInt8.ofNat cur).toNat = cur := Nat.mod_eq_of_lt (Nat.lt_succ_of_le h.cur_le)
  have hle := h.length_le
  have hoctets := h.octets_eq
  rw [pton4Loop, hd]
  simp only [h.get, Option.bind_eq_bind, Option.bind_some, hcur, hstore, h.saw_eq,
    if_neg (Nat.not_lt.mpr hnew)]
  cases saw with
  | false =>
    have hfour : ¬ st.octets + 1 > 4 := by
      simp only [Bool.false_eq_true, if_false] at hoctets
      omega
    rw [if_pos rfl, if_neg hfour, hoctets]
    rfl
  | true =>
    have hst' : st = { st with octets := ns.length + 1, sawDigit := true } := by
      rw [show ns.length + 1 = st.octets from hoctets.symm, ← h.saw_eq]
    rw [if_neg (by simp), hst']

/-- A dot behind an octet that is not the last one. -/
theorem Reading.step_dot {s : List Char} (h : Reading ns cur true st) (hlt : ns.length < 3) :
    ∃ st', pton4Loop st ('.' :: s) = pton4Loop st' s ∧ Reading (ns ++ [cur]) 0 false st' := by
  obtain ⟨tmp, hstore, hst⟩ := h.dot hlt
  refine ⟨_, ?_, hst⟩
  have hfour : ¬ st.octets = 4 := by
    rw [show st.octets = ns.length + 1 from h.octets_eq]
    omega
  rw [pton4Loop, show digits.idxOf? '.' = none from rfl]
  simp only [h.saw_eq, and_self, if_true, if_neg hfour, hstore, Option.bind_eq_bind,
    Option.bind_some]

theorem Reading.filter_cur (h : Reading ns cur saw st) :
    (some cur).filter (· ≤ 255) = some cur :=
  Option.filter_eq_some_iff.mpr ⟨rfl, decide_eq_true h.cur_le⟩

/-- **The loop reads words.** -/
theorem pton4Loop_eq : ∀ (s : List Char) (ns : List ℕ) (cur : ℕ) (saw : Bool) (st : Scan4),
    Reading ns cur saw st →
    pton4Loop st s = some (quadFrom ns cur saw (s.splitOn '.')) := by
  intro s
  induction s with
  | nil =>
    intro ns cur saw st h
    obtain ⟨rest, htmp, hlen⟩ := h.tmp_eq
    rw [List.splitOn_nil, pton4Loop, h.octets_eq]
    cases saw with
    | false =>
      rw [if_pos (by simp; omega), quadFrom, if_pos ⟨rfl, rfl⟩]
    | true =>
      rw [quadFrom_of_digit ns [] (.inl rfl), extend_nil, h.filter_cur, Option.bind_some]
      by_cases hfull : ns.length = 3
      · have hnil : rest = [] := List.eq_nil_of_length_eq_zero (by omega)
        simp [hfull, htmp, hnil]
      · rw [if_pos (by simp; omega), if_neg hfull]
  | cons ch s ih =>
    intro ns cur saw st h
    have hle := h.length_le
    cases hd : digits.idxOf? ch with
    | some d =>
      have hdot : ch ≠ '.' := by
        rintro rfl
        cases hd
      obtain ⟨w, ws, hs, hcons⟩ := splitOn_cons_of_ne hdot s
      rw [hcons, quadFrom_of_digit ns ws (.inr (List.cons_ne_nil ch w)), extend_cons_of_some hd,
        Nat.mul_comm]
      by_cases hnew : cur * 10 + d ≤ 255
      · obtain ⟨st', hstep, hst⟩ := h.step_digit hd hnew (s := s)
        rw [hstep, ih ns _ true st' hst, hs, quadFrom_of_digit ns ws (.inl rfl)]
      · have hbig : (extend digit 10 (cur * 10 + d) w).filter (· ≤ 255) = none := by
          rw [Option.filter_eq_none_iff]
          intro n hn
          have := le_extend (by decide) w _ hn
          simp
          omega
        rw [hbig, Option.bind_none, pton4Loop, hd]
        have hcur : (UInt8.ofNat cur).toNat = cur :=
          Nat.mod_eq_of_lt (Nat.lt_succ_of_le h.cur_le)
        simp only [h.get, Option.bind_eq_bind, Option.bind_some, hcur,
          if_pos (Nat.not_le.mp hnew)]
    | none =>
      rw [pton4Loop, hd]
      by_cases hdot : ch = '.'
      · subst hdot
        rw [splitOn_cons_self, h.saw_eq]
        cases saw with
        | false => simp [quadFrom]
        | true =>
          obtain ⟨w, ws, hs⟩ := List.exists_cons_of_ne_nil (List.splitOn_ne_nil '.' s)
          rw [quadFrom_of_digit ns _ (.inl rfl), extend_nil, h.filter_cur, Option.bind_some, hs]
          by_cases hfull : ns.length = 3
          · have hoctets : st.octets = ns.length + 1 := h.octets_eq
            simp [hoctets, hfull]
          · obtain ⟨st', hstep, hst⟩ := h.step_dot (s := s) (by omega)
            rw [pton4Loop, hd, h.saw_eq] at hstep
            rw [hstep, ih _ _ _ _ hst, hs]
            simp [hfull]
      · obtain ⟨w, ws, -, hcons⟩ := splitOn_cons_of_ne hdot s
        rw [hcons, quadFrom_of_digit ns ws (.inr (List.cons_ne_nil ch w)),
          extend_cons_of_none hd, if_neg fun hand => hdot hand.1]
        rfl

end Quad

/-- **`inet_pton4` reads a dotted quad**, and never writes outside of its array. -/
theorem inetPton4_eq (junk : Junk) (s : List Char) :
    inetPton4 junk s = some (quad (s.splitOn '.')) := by
  obtain ⟨y, rest, hjunk⟩ := List.exists_cons_of_length_pos
    (show 0 < junk.bytes.length by rw [junk.length_eq]; decide)
  have hlen := junk.length_eq
  have hstore : store junk.bytes 0 0 = some (0 :: rest) := by
    rw [hjunk]
    exact @store_append [] rest 0 y
  have hstart : Reading [] 0 false ⟨false, 0, 0 :: rest, 0⟩ := by
    refine ⟨rfl, rfl, rfl, ⟨rest, rfl, ?_⟩, Nat.zero_le _, fun _ => rfl⟩
    rw [hjunk, List.length_cons] at hlen
    rw [List.length_nil]
    omega
  rw [inetPton4, hstore, Option.bind_eq_bind, Option.bind_some, pton4Loop_eq s _ _ _ _ hstart,
    quadFrom_eq_quad]

end TcpIp.Inet
