import Mathlib.Algebra.Group.Nat.Defs
import Mathlib.Data.List.Basic
import TcpIp.Lib.Buffer

/-!
# Texts

Strings that are kept in a buffer up to a terminator, and numbers that are written with digits,
one of them or several with a separator between them.

## Main definitions

* `strAt` — the string at a position of a buffer.
* `strcpy`, `strcat` — a string is stored in a buffer, or behind the one that is there.
* `joined` — numbers with a separator between them.

## Main results

* `strcpy_append`, `strcat_append` — what is in the buffer then.
* `toDigits_injective` — a number is known from its digits.
* `joined_injective` — numbers are known from the text that has them with a separator between
  them.
-/

namespace Text

open Buffer

/-! ### Strings in a buffer -/

section Strings

variable {α : Type*} (nul : α)

/-- A string and the terminator are stored at the position `i`.  The value is `none` if they do
not fit. -/
def strcpy (buf : List α) (i : ℕ) (s : List α) : Option (List α) :=
  if i + (s.length + 1) ≤ buf.length then some (writeAt buf i (s ++ [nul])) else none

/-- What is in the buffer then. -/
theorem strcpy_append {s t rest : List α} (h : t.length + (s.length + 1) ≤ (t ++ rest).length) :
    ∃ rest', strcpy nul (t ++ rest) t.length s = some (t ++ (s ++ nul :: rest')) ∧
      (t ++ (s ++ nul :: rest')).length = (t ++ rest).length := by
  have hsize : (s ++ [nul]).length = s.length + 1 := by simp
  refine ⟨(t ++ rest).drop (t.length + (s.length + 1)), ?_, ?_⟩
  · rw [strcpy, if_pos h, writeAt, List.take_left, hsize]
    simp
  · simp only [List.length_append, List.length_cons, List.length_drop] at h ⊢
    omega

variable [DecidableEq α]

/-- The string at the position `i`. -/
def strAt (buf : List α) (i : ℕ) : List α := (buf.drop i).takeWhile (· ≠ nul)

/-- A string is stored behind the one that is in the buffer. -/
def strcat (buf s : List α) : Option (List α) := strcpy nul buf (strAt nul buf 0).length s

variable {nul} {buf s t rest : List α} {i : ℕ}

theorem strAt_eq (hs : nul ∉ s) (hbuf : buf.drop i = s ++ nul :: rest) : strAt nul buf i = s := by
  have hall : ∀ c ∈ s, decide (c ≠ nul) = true := by
    intro c hc
    refine decide_eq_true ?_
    rintro rfl
    exact hs hc
  rw [strAt, hbuf, List.takeWhile_append_of_pos hall, List.takeWhile_cons_of_neg (by simp),
    List.append_nil]

/-- The same behind a string that is there. -/
theorem strcat_append (ht : nul ∉ t)
    (h : t.length + (s.length + 1) ≤ (t ++ nul :: rest).length) :
    ∃ rest', strcat nul (t ++ nul :: rest) s = some ((t ++ s) ++ nul :: rest') ∧
      ((t ++ s) ++ nul :: rest').length = (t ++ nul :: rest).length := by
  have hend : strAt nul (t ++ nul :: rest) 0 = t := strAt_eq ht List.drop_zero
  obtain ⟨rest', hcpy, hlen⟩ := strcpy_append nul h
  refine ⟨rest', ?_, ?_⟩
  · rw [strcat, hend, hcpy, List.append_assoc]
  · rw [List.append_assoc, hlen]

end Strings

/-! ### Digits -/

section Digits

variable {b m n : ℕ}

theorem digitChar_injective : ∀ i < 16, ∀ j < 16, Nat.digitChar i = Nat.digitChar j → i = j := by
  decide

/-- **A number is known from its digits.** -/
theorem toDigits_injective (hb : 1 < b) (hle : b ≤ 16) :
    ∀ m n, Nat.toDigits b m = Nat.toDigits b n → m = n := by
  intro m
  induction m using Nat.strongRecOn with
  | ind m ih =>
    intro n h
    rw [Nat.toDigits_eq_if hb, Nat.toDigits_eq_if (n := n) hb] at h
    have hm := Nat.length_toDigits_pos (b := b) (n := m / b)
    have hn := Nat.length_toDigits_pos (b := b) (n := n / b)
    split at h <;> split at h
    · next hmb hnb =>
      exact digitChar_injective m (by omega) n (by omega) (List.singleton_inj.mp h)
    · have hlen := congrArg List.length h
      rw [List.length_append, List.length_singleton, List.length_singleton] at hlen
      omega
    · have hlen := congrArg List.length h
      rw [List.length_append, List.length_singleton, List.length_singleton] at hlen
      omega
    · next hmb hnb =>
      -- the last digits are the same, and so are the others
      obtain ⟨hdiv, hmod⟩ := List.append_inj' h rfl
      have hdiv := ih (m / b) (Nat.div_lt_self (by omega) hb) (n / b) hdiv
      have hmod := digitChar_injective (m % b) (by have := Nat.mod_lt m (y := b); omega)
        (n % b) (by have := Nat.mod_lt n (y := b); omega) (List.singleton_inj.mp hmod)
      rw [← Nat.div_add_mod m b, ← Nat.div_add_mod n b, hdiv, hmod]

/-- The characters of a number are digits. -/
theorem exists_digit_of_mem (hb : 1 < b) {c : Char} :
    ∀ n, c ∈ Nat.toDigits b n → ∃ d < b, c = Nat.digitChar d := by
  intro n
  induction n using Nat.strongRecOn with
  | ind n ih =>
    intro hc
    rw [Nat.toDigits_eq_if hb] at hc
    split at hc
    · next hlt => exact ⟨n, hlt, List.mem_singleton.mp hc⟩
    · next hge =>
      rcases List.mem_append.mp hc with hinit | hlast
      · exact ih (n / b) (Nat.div_lt_self (by omega) hb) hinit
      · exact ⟨n % b, Nat.mod_lt n (by omega), List.mem_singleton.mp hlast⟩

end Digits

/-! ### Numbers with a separator between them -/

section Joined

variable {b k : ℕ} {c x : Char} {ns ms : List ℕ}

/-- Numbers in the base `b` with `c` between them. -/
def joined (c : Char) (b : ℕ) (ns : List ℕ) : List Char := [c].intercalate (ns.map (Nat.toDigits b))

theorem joined_cons_cons (n m : ℕ) (ns : List ℕ) :
    joined c b (n :: m :: ns) = Nat.toDigits b n ++ c :: joined c b (m :: ns) := by
  simp only [joined, List.map_cons, List.intercalate_cons_cons, List.append_assoc,
    List.singleton_append]

/-- The character is not a digit. -/
def NoDigit (b : ℕ) (c : Char) : Prop := ∀ d < b, c ≠ Nat.digitChar d

instance : Decidable (NoDigit b c) := inferInstanceAs (Decidable (∀ d < b, _))

theorem notMem_toDigits (hb : 1 < b) (hc : NoDigit b c) (n : ℕ) : c ∉ Nat.toDigits b n := by
  intro hmem
  obtain ⟨d, hd, rfl⟩ := exists_digit_of_mem hb n hmem
  exact hc d hd rfl

/-- **The numbers are known from the text**, if the separator is not a digit. -/
theorem joined_injective (hb : 1 < b) (hle : b ≤ 16) (hc : NoDigit b c) (hns : ns ≠ [])
    (hms : ms ≠ []) (h : joined c b ns = joined c b ms) : ns = ms := by
  have hwords : ∀ l : List ℕ, ∀ w ∈ l.map (Nat.toDigits b), c ∉ w := by
    intro l w hw
    obtain ⟨n, -, rfl⟩ := List.mem_map.mp hw
    exact notMem_toDigits hb hc n
  have hmap : ns.map (Nat.toDigits b) = ms.map (Nat.toDigits b) := by
    rw [← List.splitOn_intercalate c (hwords ns) (by simpa using hns),
      ← List.splitOn_intercalate c (hwords ms) (by simpa using hms)]
    exact congrArg _ h
  exact (List.map_inj_right (toDigits_injective hb hle)).mp hmap

theorem mem_joined (hb : 1 < b) : ∀ ns : List ℕ, x ∈ joined c b ns →
    x = c ∨ ∃ d < b, x = Nat.digitChar d := by
  intro ns
  induction ns with
  | nil => intro hx; simp [joined] at hx
  | cons n ns ih =>
    intro hx
    cases ns with
    | nil =>
      simp only [joined, List.map_cons, List.map_nil, List.intercalate_singleton] at hx
      exact .inr (exists_digit_of_mem hb n hx)
    | cons m ns =>
      rw [joined_cons_cons, List.mem_append, List.mem_cons] at hx
      rcases hx with hx | rfl | hx
      · exact .inr (exists_digit_of_mem hb n hx)
      · exact .inl rfl
      · exact ih hx

theorem length_joined_le (hb : 1 < b) (hk : 0 < k) : ∀ ns : List ℕ, (∀ n ∈ ns, n < b ^ k) →
    (joined c b ns).length ≤ ns.length * (k + 1) - 1 := by
  intro ns
  induction ns with
  | nil => intro _; simp [joined]
  | cons n ns ih =>
    intro hns
    obtain ⟨hn, hns⟩ := List.forall_mem_cons.mp hns
    have hlen := (Nat.length_toDigits_le_iff hb hk).mpr hn
    have hrest := ih hns
    cases ns with
    | nil =>
      simp only [joined, List.map_cons, List.map_nil, List.intercalate_singleton,
        List.length_singleton]
      omega
    | cons m ns =>
      rw [joined_cons_cons, List.length_append, List.length_cons, List.length_cons,
        Nat.succ_mul]
      rw [List.length_cons, Nat.succ_mul] at hrest ⊢
      omega

theorem count_joined (hb : 1 < b) (hc : NoDigit b c) : ∀ ns : List ℕ, ns ≠ [] →
    (joined c b ns).count c + 1 = ns.length := by
  intro ns
  induction ns with
  | nil => intro h; exact absurd rfl h
  | cons n ns ih =>
    intro _
    have hzero := List.count_eq_zero.mpr (notMem_toDigits hb hc n)
    cases ns with
    | nil => simpa [joined] using hzero
    | cons m ns =>
      have hrest := ih (List.cons_ne_nil m ns)
      rw [joined_cons_cons, List.count_append, List.count_cons_self, hzero, List.length_cons]
      omega

end Joined

end Text
