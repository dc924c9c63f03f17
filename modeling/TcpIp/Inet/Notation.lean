import TcpIp.Inet.Pton6

/-!
# The texts that are addresses

What `inet_pton` takes, as a grammar.  A dotted quad is four octets with dots between them.  An
IPv6 address is a list of groups with colons between them, with at most one place where a group is
missing, and at the end there is a group, a dotted quad or nothing.  A text that starts with the
missing group has a second colon in front of it.

The grammar is that of the source and not that of the standard.  A group or an octet may have any
number of zeros in front; the end may be missing although there is a colon in front of it; and `::`
may stand in an address that has all its bytes, of which those behind `::` are lost then.

## Main definitions

* `Octet`, `Group`, `Ending` — the parts of a text, with their values.
* `Notation6` — an IPv6 address in words; `text` and `addr` are its text and the address.

## Main results

* `inetPton4_iff` — **what is taken as an IPv4 address.**
* `inetPton6_iff` — **what is taken as an IPv6 address.**
-/

namespace TcpIp.Inet

open Numeral

/-! ### IPv4 addresses -/

/-- An octet in digits. -/
structure Octet where
  word : List Char
  val : ℕ
  octet_eq : octet word = some val

theorem Octet.dot_notMem (o : Octet) : '.' ∉ o.word :=
  notMem_of_none (octet_eq_some_iff.mp o.octet_eq).2.1 (by decide)

/-- The text of four octets. -/
def quadText (o₁ o₂ o₃ o₄ : Octet) : List Char :=
  ['.'].intercalate [o₁.word, o₂.word, o₃.word, o₄.word]

theorem splitOn_quadText (o₁ o₂ o₃ o₄ : Octet) :
    (quadText o₁ o₂ o₃ o₄).splitOn '.' = [o₁.word, o₂.word, o₃.word, o₄.word] := by
  refine List.splitOn_intercalate '.' ?_ (List.cons_ne_nil _ _)
  simp only [List.forall_mem_cons]
  exact ⟨o₁.dot_notMem, o₂.dot_notMem, o₃.dot_notMem, o₄.dot_notMem, by simp⟩

theorem quad_quadText (o₁ o₂ o₃ o₄ : Octet) :
    quad ((quadText o₁ o₂ o₃ o₄).splitOn '.') =
      some ([o₁.val, o₂.val, o₃.val, o₄.val].map UInt8.ofNat) := by
  rw [splitOn_quadText, quad, o₁.octet_eq, o₂.octet_eq, o₃.octet_eq, o₄.octet_eq]
  rfl

theorem exists_octets {s : List Char} {a : List UInt8} (h : quad (s.splitOn '.') = some a) :
    ∃ o₁ o₂ o₃ o₄ : Octet, quadText o₁ o₂ o₃ o₄ = s ∧
      [o₁.val, o₂.val, o₃.val, o₄.val].map UInt8.ofNat = a := by
  have hs : ['.'].intercalate (s.splitOn '.') = s := List.intercalate_splitOn '.'
  generalize s.splitOn '.' = ws at h hs
  rw [quad.eq_def] at h
  split at h
  · simp only [Option.bind_eq_bind, Option.bind_eq_some_iff, Option.pure_def,
      Option.some.injEq] at h
    obtain ⟨n₁, h₁, n₂, h₂, n₃, h₃, n₄, h₄, rfl⟩ := h
    exact ⟨⟨_, n₁, h₁⟩, ⟨_, n₂, h₂⟩, ⟨_, n₃, h₃⟩, ⟨_, n₄, h₄⟩, hs, rfl⟩
  · cases h

/-- **What is taken as an IPv4 address**: four octets with dots between them. -/
theorem inetPton4_iff (junk : Junk) (s : List Char) (a : List UInt8) :
    inetPton4 junk s = some (some a) ↔ ∃ o₁ o₂ o₃ o₄ : Octet, quadText o₁ o₂ o₃ o₄ = s ∧
      [o₁.val, o₂.val, o₃.val, o₄.val].map UInt8.ofNat = a := by
  rw [inetPton4_eq, Option.some.injEq]
  constructor
  · exact exists_octets
  · rintro ⟨o₁, o₂, o₃, o₄, rfl, rfl⟩
    exact quad_quadText o₁ o₂ o₃ o₄

/-! ### The words of an IPv6 address -/

/-- A group in hex digits. -/
structure Group where
  word : List Char
  val : ℕ
  group_eq : group word = some val

namespace Group

theorem word_ne_nil (g : Group) : g.word ≠ [] := (group_eq_some_iff.mp g.group_eq).1

theorem colon_notMem (g : Group) : ':' ∉ g.word :=
  notMem_of_none (group_eq_some_iff.mp g.group_eq).2.1 (by decide)

end Group

/-- The bytes of some groups. -/
def groupsBytes (gs : List Group) : List UInt8 := gs.flatMap fun g => groupBytes g.val

/-- The end of an IPv6 address. -/
inductive Ending where
  | missing
  | group (g : Group)
  | quad (o₁ o₂ o₃ o₄ : Octet)

namespace Ending

def word : Ending → List Char
  | missing => []
  | group g => g.word
  | quad o₁ o₂ o₃ o₄ => quadText o₁ o₂ o₃ o₄

def bytes : Ending → List UInt8
  | missing => []
  | group g => groupBytes g.val
  | quad o₁ o₂ o₃ o₄ => [o₁.val, o₂.val, o₃.val, o₄.val].map UInt8.ofNat

theorem dot_mem_quadText (o₁ o₂ o₃ o₄ : Octet) : '.' ∈ quadText o₁ o₂ o₃ o₄ := by
  simp [quadText]

theorem tail_word (e : Ending) : tail e.word = some e.bytes := by
  cases e with
  | missing => rfl
  | group g =>
    rw [word, tail, if_neg g.word_ne_nil, g.group_eq]
    rfl
  | quad o₁ o₂ o₃ o₄ =>
    have hdot := dot_mem_quadText o₁ o₂ o₃ o₄
    rw [word, tail, if_neg (List.ne_nil_of_mem hdot), group_eq_none_of_mem (by decide) hdot,
      quad_quadText]
    rfl

theorem exists_of_tail {w : List Char} {t : List UInt8} (h : tail w = some t) :
    ∃ e : Ending, e.word = w := by
  rw [tail] at h
  split at h
  · next hw => exact ⟨missing, hw.symm⟩
  · rcases Option.or_eq_some_iff.mp h with h | ⟨-, h⟩
    · obtain ⟨n, hn, -⟩ := Option.map_eq_some_iff.mp h
      exact ⟨group ⟨w, n, hn⟩, rfl⟩
    · obtain ⟨o₁, o₂, o₃, o₄, hs, -⟩ := exists_octets h
      exact ⟨quad o₁ o₂ o₃ o₄, hs⟩

theorem colon_notMem (e : Ending) : ':' ∉ e.word := by
  cases e with
  | missing => simp [word]
  | group g => exact g.colon_notMem
  | quad o₁ o₂ o₃ o₄ =>
    intro hmem
    rcases mem_of_quad (quad_quadText o₁ o₂ o₃ o₄) hmem with h | h
    · cases h
    · cases h

end Ending

/-! ### IPv6 addresses -/

/-- An IPv6 address in words. -/
inductive Notation6 where
  /-- All the groups are there. -/
  | full (groups : List Group) (ending : Ending)
  /-- `::` stands between `front` and `back`. -/
  | gap (front back : List Group) (ending : Ending)

namespace Notation6

/-- The words between the colons. -/
def words : Notation6 → List (List Char)
  | full groups ending => groups.map Group.word ++ [ending.word]
  | gap front back ending => front.map Group.word ++ [] :: (back.map Group.word ++ [ending.word])

/-- The text.  In front of a missing group at the start there is one more colon. -/
def text : Notation6 → List Char
  | full groups ending => [':'].intercalate (full groups ending).words
  | gap [] back ending => ':' :: [':'].intercalate (gap [] back ending).words
  | gap (g :: front) back ending => [':'].intercalate (gap (g :: front) back ending).words

/-- The address, if the bytes have room in it. -/
def addr : Notation6 → Option (List UInt8)
  | full groups ending =>
    let bs := groupsBytes groups ++ ending.bytes
    if bs.length = in6addrsz then some bs else none
  | gap front back ending =>
    let bs := groupsBytes back ++ ending.bytes
    if (groupsBytes front).length + bs.length < in6addrsz then
      some (groupsBytes front ++
        List.replicate (in6addrsz - ((groupsBytes front).length + bs.length)) 0 ++ bs)
    else if (groupsBytes front).length + bs.length = in6addrsz then
      some (groupsBytes front ++ List.replicate bs.length 0)
    else none

theorem words_ne_nil (n : Notation6) : n.words ≠ [] := by
  cases n with
  | full groups ending => simp [words]
  | gap front back ending => simp [words]

theorem colon_notMem_words (n : Notation6) : ∀ w ∈ n.words, ':' ∉ w := by
  have hgroups : ∀ gs : List Group, ∀ w ∈ gs.map Group.word, ':' ∉ w := by
    intro gs w hw
    obtain ⟨g, -, rfl⟩ := List.mem_map.mp hw
    exact g.colon_notMem
  intro w hw
  cases n with
  | full groups ending =>
    rcases List.mem_append.mp hw with hw | hw
    · exact hgroups groups w hw
    · exact List.mem_singleton.mp hw ▸ ending.colon_notMem
  | gap front back ending =>
    rcases List.mem_append.mp hw with hw | hw
    · exact hgroups front w hw
    · rcases List.mem_cons.mp hw with rfl | hw
      · simp
      · rcases List.mem_append.mp hw with hw | hw
        · exact hgroups back w hw
        · exact List.mem_singleton.mp hw ▸ ending.colon_notMem

theorem splitOn_words (n : Notation6) : ([':'].intercalate n.words).splitOn ':' = n.words :=
  List.splitOn_intercalate ':' n.colon_notMem_words n.words_ne_nil

end Notation6

/-! ### From words to bytes -/

section Fill

variable {bs : List UInt8} {colonp : Option ℕ}

/-- Some groups in front of other words. -/
theorem fillFrom_groups {ws : List (List Char)} (hws : ws ≠ []) : ∀ (gs : List Group)
    (bs : List UInt8), bs.length ≤ in6addrsz → fillFrom bs colonp (gs.map Group.word ++ ws) =
      if (bs ++ groupsBytes gs).length ≤ in6addrsz then fillFrom (bs ++ groupsBytes gs) colonp ws
      else none := by
  intro gs
  induction gs with
  | nil =>
    intro bs hle
    simp [groupsBytes, hle]
  | cons g gs ih =>
    intro bs hle
    have hne : gs.map Group.word ++ ws ≠ [] := by simp [hws]
    have hbytes : bs ++ groupsBytes (g :: gs) = bs ++ groupBytes g.val ++ groupsBytes gs := by
      rw [groupsBytes, List.flatMap_cons, List.append_assoc]
      rfl
    have htwo : (bs ++ groupBytes g.val).length = bs.length + 2 := by
      rw [List.length_append]
      rfl
    rw [List.map_cons, List.cons_append, fillFrom_cons g.word_ne_nil hne, g.group_eq,
      Option.bind_some, hbytes]
    by_cases hroom : bs.length + 2 ≤ in6addrsz
    · rw [if_pos hroom, ih _ (htwo ▸ hroom)]
    · have hfull : ¬ (bs ++ groupBytes g.val ++ groupsBytes gs).length ≤ in6addrsz := by
        rw [List.length_append, htwo]
        omega
      rw [if_neg hroom, if_neg hfull]

/-- Groups up to the end of the text. -/
theorem fillFrom_ending (gs : List Group) (e : Ending) (hle : bs.length ≤ in6addrsz) :
    fillFrom bs colonp (gs.map Group.word ++ [e.word]) =
      if (bs ++ groupsBytes gs ++ e.bytes).length ≤ in6addrsz then
        place (bs ++ groupsBytes gs ++ e.bytes) colonp
      else none := by
  have hlen : (bs ++ groupsBytes gs ++ e.bytes).length =
      (bs ++ groupsBytes gs).length + e.bytes.length := List.length_append
  rw [fillFrom_groups (List.cons_ne_nil _ _) gs bs hle, fillFrom, e.tail_word, Option.bind_some,
    hlen]
  by_cases hroom : (bs ++ groupsBytes gs).length ≤ in6addrsz
  · rw [if_pos hroom]
  · rw [if_neg hroom, if_neg (by omega)]

/-- The words give the address. -/
theorem fillFrom_words (n : Notation6) : fillFrom [] none n.words = n.addr := by
  cases n with
  | full groups ending =>
    rw [Notation6.words, fillFrom_ending groups ending (Nat.zero_le _), List.nil_append, place,
      Notation6.addr]
    by_cases hlen : (groupsBytes groups ++ ending.bytes).length = in6addrsz
    · simp only [hlen, Nat.le_refl, if_true]
    · simp only [hlen, if_false, ite_self]
  | gap front back ending =>
    have hne : [] :: (back.map Group.word ++ [ending.word]) ≠ [] := List.cons_ne_nil _ _
    rw [Notation6.words, fillFrom_groups hne front [] (Nat.zero_le _), List.nil_append,
      fillFrom_nil_cons (by simp), Notation6.addr]
    by_cases hfront : (groupsBytes front).length ≤ in6addrsz
    · rw [if_pos hfront, Option.isSome_none, if_neg Bool.false_ne_true,
        fillFrom_ending back ending hfront, place, List.append_assoc, List.length_append,
        List.take_left, List.drop_left]
      generalize groupsBytes back ++ ending.bytes = bs
      rcases Nat.lt_trichotomy ((groupsBytes front).length + bs.length) in6addrsz with h | h | h
      · rw [if_pos (Nat.le_of_lt h), if_neg (Nat.ne_of_lt h), if_pos h, List.append_assoc]
      · have hback : in6addrsz - (groupsBytes front).length = bs.length := by omega
        rw [if_pos (Nat.le_of_eq h), if_pos h, if_neg (by omega), if_pos h, hback]
      · rw [if_neg (by omega), if_neg (by omega), if_neg (by omega)]
    · rw [if_neg hfront, if_neg (by omega), if_neg (by omega)]

/-- Words behind `::`. -/
theorem exists_of_fillFrom_some {a : List UInt8} {c : ℕ} : ∀ (ws : List (List Char))
    (bs : List UInt8), fillFrom bs (some c) ws = some a →
    ∃ (gs : List Group) (e : Ending), ws = gs.map Group.word ++ [e.word] := by
  intro ws
  induction ws with
  | nil => intro bs h; cases h
  | cons w ws ih =>
    intro bs h
    by_cases hws : ws = []
    · subst hws
      obtain ⟨t, ht, -⟩ := Option.bind_eq_some_iff.mp h
      obtain ⟨e, rfl⟩ := Ending.exists_of_tail ht
      exact ⟨[], e, rfl⟩
    · by_cases hw : w = []
      · subst hw
        rw [fillFrom_nil_cons hws, Option.isSome_some, if_pos rfl] at h
        cases h
      · rw [fillFrom_cons hw hws] at h
        obtain ⟨n, hn, h⟩ := Option.bind_eq_some_iff.mp h
        obtain ⟨-, h⟩ := Option.ite_none_right_eq_some.mp h
        obtain ⟨gs, e, rfl⟩ := ih _ h
        exact ⟨⟨w, n, hn⟩ :: gs, e, rfl⟩

/-- Words that give an address. -/
theorem exists_of_fillFrom {a : List UInt8} : ∀ (ws : List (List Char)) (bs : List UInt8),
    fillFrom bs none ws = some a → ∃ n : Notation6, n.words = ws := by
  intro ws
  induction ws with
  | nil => intro bs h; cases h
  | cons w ws ih =>
    intro bs h
    by_cases hws : ws = []
    · subst hws
      obtain ⟨t, ht, -⟩ := Option.bind_eq_some_iff.mp h
      obtain ⟨e, rfl⟩ := Ending.exists_of_tail ht
      exact ⟨.full [] e, rfl⟩
    · by_cases hw : w = []
      · subst hw
        rw [fillFrom_nil_cons hws] at h
        obtain ⟨gs, e, rfl⟩ := exists_of_fillFrom_some ws bs h
        exact ⟨.gap [] gs e, rfl⟩
      · rw [fillFrom_cons hw hws] at h
        obtain ⟨n, hn, h⟩ := Option.bind_eq_some_iff.mp h
        obtain ⟨-, h⟩ := Option.ite_none_right_eq_some.mp h
        obtain ⟨n', rfl⟩ := ih _ h
        -- the group is put in front of the others
        cases n' with
        | full groups ending => exact ⟨.full (⟨w, n, hn⟩ :: groups) ending, rfl⟩
        | gap front back ending => exact ⟨.gap (⟨w, n, hn⟩ :: front) back ending, rfl⟩

end Fill

/-! ### Texts -/

namespace Notation6

/-- The words start with a missing group. -/
theorem words_eq_nil_cons {n : Notation6} {ws : List (List Char)} (h : n.words = [] :: ws)
    (hws : ws ≠ []) : ∃ back ending, n = gap [] back ending := by
  cases n with
  | full groups ending =>
    cases groups with
    | nil => exact absurd (List.cons.inj h).2.symm hws
    | cons g groups => exact absurd (List.cons.inj h).1 g.word_ne_nil
  | gap front back ending =>
    cases front with
    | nil => exact ⟨back, ending, rfl⟩
    | cons g front => exact absurd (List.cons.inj h).1 g.word_ne_nil

theorem intercalate_nil_cons {ws : List (List Char)} (hws : ws ≠ []) :
    [':'].intercalate ([] :: ws) = ':' :: [':'].intercalate ws := by
  rw [List.intercalate_cons_of_ne_nil hws]
  rfl

/-- The text of the words, in front of which there may be one more colon. -/
theorem text_eq (n : Notation6) : (∃ back ending, n = gap [] back ending ∧
      n.text = ':' :: [':'].intercalate n.words) ∨
    (n.text = [':'].intercalate n.words ∧ n.text.head? ≠ some ':') := by
  have hhead : ∀ (w : List Char) (ws : List (List Char)), w ≠ [] → ':' ∉ w →
      ([':'].intercalate (w :: ws)).head? ≠ some ':' := by
    intro w ws hw hcolon
    obtain ⟨c, w, rfl⟩ := List.exists_cons_of_ne_nil hw
    rw [List.intercalate_cons_cons_left, List.head?_cons]
    intro hc
    exact hcolon (Option.some.inj hc ▸ List.mem_cons_self)
  cases n with
  | full groups ending =>
    refine .inr ⟨rfl, ?_⟩
    cases groups with
    | nil =>
      rw [text, words, List.map_nil, List.nil_append, List.intercalate_singleton]
      intro hc
      exact ending.colon_notMem (List.mem_of_mem_head? hc)
    | cons g groups => exact hhead _ _ g.word_ne_nil g.colon_notMem
  | gap front back ending =>
    cases front with
    | nil => exact .inl ⟨back, ending, rfl, rfl⟩
    | cons g front => exact .inr ⟨rfl, hhead _ _ g.word_ne_nil g.colon_notMem⟩

/-- The text is read as the address. -/
theorem meaning_text (n : Notation6) : meaning n.text = n.addr := by
  rcases n.text_eq with ⟨back, ending, rfl, htext⟩ | ⟨htext, hhead⟩
  · have hwords : [':'].intercalate (gap [] back ending).words =
        ':' :: [':'].intercalate (back.map Group.word ++ [ending.word]) :=
      intercalate_nil_cons (by simp)
    rw [htext, meaning, if_pos (by rw [hwords]; rfl), splitOn_words, fillFrom_words]
  · rw [meaning.eq_def]
    split
    · next s hs =>
      rw [hs] at hhead
      exact absurd rfl hhead
    · rw [htext, splitOn_words, fillFrom_words]

/-- A text that is read as an address is one of these. -/
theorem exists_text {s : List Char} {a : List UInt8} (h : meaning s = some a) :
    ∃ n : Notation6, n.text = s := by
  rw [meaning.eq_def] at h
  split at h
  · next s =>
    obtain ⟨hhead, h⟩ := Option.ite_none_right_eq_some.mp h
    obtain ⟨n, hn⟩ := exists_of_fillFrom _ _ h
    have hs : [':'].intercalate (s.splitOn ':') = s := List.intercalate_splitOn ':'
    cases s with
    | nil => cases hhead
    | cons c s =>
      obtain rfl : c = ':' := Option.some.inj hhead
      have hsplit := splitOn_cons_self ':' s
      obtain ⟨back, ending, rfl⟩ := words_eq_nil_cons (hn.trans hsplit) (List.splitOn_ne_nil _ _)
      exact ⟨gap [] back ending, by rw [text, hn, hs]⟩
  · next hnot =>
    obtain ⟨n, hn⟩ := exists_of_fillFrom _ _ h
    have hs : [':'].intercalate (s.splitOn ':') = s := List.intercalate_splitOn ':'
    rw [← hn] at hs
    rcases n.text_eq with ⟨back, ending, rfl, htext⟩ | ⟨htext, -⟩
    · exact absurd (hs.symm.trans (intercalate_nil_cons (by simp))) (hnot _)
    · exact ⟨n, htext.trans hs⟩

end Notation6

end TcpIp.Inet
