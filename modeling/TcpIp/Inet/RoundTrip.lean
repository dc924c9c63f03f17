import TcpIp.Inet.Notation
import TcpIp.Inet.Ntop

/-!
# From an address to its text and back

The text that `inet_ntop` makes is one that `inet_pton` takes, and it is read as the same address.
The text of an IPv6 address has all its groups, or a `::` for those that are zero.

## Main results

* `exists_notation` — the text of an IPv6 address is in the grammar.
* `inetPton_inetNtop` — **an address is read back from its text.**
-/

namespace TcpIp.Inet

open Numeral Text Bytes LongestRun
open Ntop (nul)

/-! ### Numbers in digits -/

theorem octet_toDigits (x : UInt8) : octet (Nat.toDigits 10 x.toNat) = some x.toNat := by
  have hlt := x.toNat_lt
  exact octet_eq_some_iff.mpr ⟨Nat.toDigits_ne_nil, numeral_toDigits (by decide) (by decide) _,
    by omega⟩

theorem group_toDigits {w : ℕ} (hw : w < 16 ^ 4) : group (Nat.toDigits 16 w) = some w :=
  group_eq_some_iff.mpr ⟨Nat.toDigits_ne_nil, numeral_toDigits (by decide) (by decide) _, by omega⟩

/-- A byte as an octet. -/
def Octet.ofByte (x : UInt8) : Octet := ⟨_, _, octet_toDigits x⟩

/-- Numbers of 16 bits as groups. -/
def Group.ofWords (ws : List ℕ) (hws : ∀ w ∈ ws, w < 16 ^ 4) : List Group :=
  ws.pmap (fun _ hw => ⟨_, _, group_toDigits hw⟩) hws

section OfWords

variable {ws : List ℕ} {hws : ∀ w ∈ ws, w < 16 ^ 4}

theorem map_word_ofWords : (Group.ofWords ws hws).map Group.word = ws.map (Nat.toDigits 16) := by
  rw [Group.ofWords, List.map_pmap, List.pmap_eq_map]

theorem groupsBytes_ofWords : groupsBytes (Group.ofWords ws hws) = ws.flatMap groupBytes := by
  rw [groupsBytes, Group.ofWords, List.flatMap_def, List.map_pmap, List.pmap_eq_map,
    ← List.flatMap_def]

end OfWords

/-- Four bytes as a dotted quad. -/
def Ending.ofBytes (src : List UInt8) : Ending :=
  .quad (.ofByte (src.getD 0 0)) (.ofByte (src.getD 1 0)) (.ofByte (src.getD 2 0))
    (.ofByte (src.getD 3 0))

theorem word_ofBytes (src : List UInt8) : (Ending.ofBytes src).word = text4 src := rfl

theorem bytes_ofBytes {src : List UInt8} (h : src.length = 4) :
    (Ending.ofBytes src).bytes = src := by
  match src, h with
  | [x₀, x₁, x₂, x₃], _ => simp [Ending.ofBytes, Ending.bytes, Octet.ofByte]

/-! ### The bytes of the groups -/

section Bytes

variable {src : List UInt8} {r : Run}

theorem groupBytes_pair (x y : UInt8) : groupBytes (256 * x.toNat + y.toNat) = [x, y] := by
  have hy := y.toNat_lt
  have hhigh : (256 * x.toNat + y.toNat) >>> 8 = x.toNat := by
    rw [Nat.shiftRight_eq_div_pow]
    omega
  have hlow : UInt8.ofNat (256 * x.toNat + y.toNat) = y := by
    refine UInt8.toNat_inj.mp ?_
    rw [UInt8.toNat_ofNat']
    omega
  rw [groupBytes, hhigh, hlow, UInt8.ofNat_toNat]

theorem flatMap_words (h : src.length = 16) : (words src).flatMap groupBytes = src := by
  match src, h with
  | [x₀, x₁, x₂, x₃, x₄, x₅, x₆, x₇, x₈, x₉, y₀, y₁, y₂, y₃, y₄, y₅], _ =>
    simp [words_eq, List.range_succ, byte, groupBytes_pair]

theorem length_flatMap_groupBytes (ws : List ℕ) :
    (ws.flatMap groupBytes).length = 2 * ws.length := by
  induction ws with
  | nil => rfl
  | cons w ws ih =>
    rw [List.flatMap_cons, List.length_append, ih, List.length_cons, groupBytes]
    simp only [List.length_cons, List.length_nil]
    omega

/-- The last four bytes are those of the last two groups. -/
theorem drop_twelve (h : src.length = 16) :
    src.drop 12 = ((words src).drop 6).flatMap groupBytes := by
  have hwords := length_words src
  have hlen : (((words src).take 6).flatMap groupBytes).length = 12 := by
    rw [length_flatMap_groupBytes, List.length_take]
    omega
  have hsplit := flatMap_words h
  rw [← List.take_append_drop 6 (words src), List.flatMap_append] at hsplit
  conv_lhs => rw [← hsplit]
  exact List.drop_left' hlen

theorem flatMap_replicate_zero (n : ℕ) :
    (List.replicate n 0).flatMap groupBytes = List.replicate (2 * n) 0 := by
  induction n with
  | zero => rfl
  | succ n ih =>
    rw [List.replicate_succ, List.flatMap_cons, ih]
    rfl

/-- The bytes of the groups, in front of a run of zeros, in it and behind it. -/
theorem flatMap_run (hrun : IsRun (fun i => (words src).getD i 0 == 0) 8 r) :
    (words src).flatMap groupBytes =
      ((words src).take r.base).flatMap groupBytes ++ List.replicate (2 * r.len) 0 ++
        ((words src).drop (r.base + r.len)).flatMap groupBytes := by
  have hwords := length_words src
  have hle := hrun.le
  have hmid : ((words src).drop r.base).take r.len = List.replicate r.len 0 := by
    refine List.ext_getElem (by simp; omega) fun i hi hi' => ?_
    rw [List.length_replicate] at hi'
    have hzero := hrun.all (r.base + i) (by omega) (by omega)
    rw [beq_iff_eq, List.getD_eq_getElem _ _ (by omega)] at hzero
    simpa using hzero
  rw [← flatMap_replicate_zero, ← hmid, ← List.flatMap_append, ← List.flatMap_append,
    ← List.drop_drop, List.append_assoc, List.take_append_drop, List.take_append_drop]

end Bytes

/-! ### Texts in the grammar -/

theorem intercalate_append {vs : List (List Char)} (hvs : vs ≠ []) : ∀ ws : List (List Char),
    ws ≠ [] →
      [':'].intercalate (ws ++ vs) = [':'].intercalate ws ++ ':' :: [':'].intercalate vs := by
  intro ws
  induction ws with
  | nil => intro h; exact absurd rfl h
  | cons w ws ih =>
    intro _
    rw [List.cons_append, List.intercalate_cons_of_ne_nil (by simp [hvs])]
    by_cases hws : ws = []
    · simp [hws]
    · rw [ih hws, List.intercalate_cons_of_ne_nil hws]
      simp

theorem text_gap (front back : List Group) (e : Ending) :
    (Notation6.gap front back e).text = [':'].intercalate (front.map Group.word) ++
      ':' :: ':' :: [':'].intercalate (back.map Group.word ++ [e.word]) := by
  have hne : back.map Group.word ++ [e.word] ≠ [] := by simp
  have hback := Notation6.intercalate_nil_cons hne
  cases front with
  | nil => exact congrArg (':' :: ·) hback
  | cons g front =>
    rw [Notation6.text, Notation6.words, intercalate_append (List.cons_ne_nil _ _) _ (by simp),
      hback]

/-- The last group is the end of the text, and if there is none nothing is. -/
theorem exists_ending (gs : List Group) : ∃ (back : List Group) (e : Ending),
    [':'].intercalate (back.map Group.word ++ [e.word]) = [':'].intercalate (gs.map Group.word) ∧
    groupsBytes back ++ e.bytes = groupsBytes gs := by
  rcases List.eq_nil_or_concat gs with rfl | ⟨back, g, rfl⟩
  · exact ⟨[], .missing, rfl, rfl⟩
  · refine ⟨back, .group g, ?_, ?_⟩
    · rw [List.concat_eq_append, List.map_append]
      rfl
    · rw [List.concat_eq_append, groupsBytes, groupsBytes, List.flatMap_append]
      rfl

/-- The groups behind `::`, and the end of the text. -/
theorem exists_back {src : List UInt8} (hlen : src.length = 16) (r : Run) :
    ∃ (back : List Group) (e : Ending),
    [':'].intercalate (back.map Group.word ++ [e.word]) = backText src (words src) r ∧
    groupsBytes back ++ e.bytes = ((words src).drop (r.base + r.len)).flatMap groupBytes := by
  have hwords := length_words src
  rw [backText]
  split
  · next henc =>
    have hquad : (Ending.ofBytes (src.drop 12)).bytes =
        ((words src).drop 6).flatMap groupBytes := by
      rw [bytes_ofBytes (by rw [List.length_drop]; omega), drop_twelve hlen]
    obtain ⟨hbase, hsix | ⟨hfive, hffff⟩⟩ := encapsulated_iff.mp henc
    · refine ⟨[], .ofBytes (src.drop 12), ?_, ?_⟩
      · rw [if_pos hsix, word_ofBytes]
        exact List.intercalate_singleton
      · rw [hbase, hsix, hquad]
        rfl
    · rw [List.getD_eq_getElem _ _ (by omega)] at hffff
      refine ⟨Group.ofWords [0xffff] (by decide), .ofBytes (src.drop 12), ?_, ?_⟩
      · have hdigits : Nat.toDigits 16 0xffff = ['f', 'f', 'f', 'f'] := by decide
        rw [if_neg (by omega), map_word_ofWords, word_ofBytes, List.map_singleton, hdigits,
          List.singleton_append, List.intercalate_cons_cons, List.intercalate_singleton]
        rfl
      · have hdrop : (words src).drop 5 = 0xffff :: (words src).drop 6 := by
          rw [List.drop_eq_getElem_cons (by omega), hffff]
        rw [hbase, hfive, Nat.zero_add, hdrop, groupsBytes_ofWords, hquad]
        rfl
  · have hmem : ∀ w ∈ (words src).drop (r.base + r.len), w < 16 ^ 4 := fun w hw =>
      lt_of_mem_words (List.mem_of_mem_drop hw)
    obtain ⟨back, e, htext, hbytes⟩ := exists_ending (Group.ofWords _ hmem)
    exact ⟨back, e, by rw [htext, map_word_ofWords]; rfl, by rw [hbytes, groupsBytes_ofWords]⟩

/-- **The text of an IPv6 address is in the grammar.** -/
theorem exists_notation (src : List UInt8) (hlen : src.length = 16) :
    ∃ n : Notation6, n.text = text6 src ∧ n.addr = some src := by
  have hwords := length_words src
  have hbytes := flatMap_words hlen
  rw [text6]
  cases hbest : best (words src) with
  | none =>
    obtain ⟨front, e, htext, hfull⟩ :=
      exists_ending (Group.ofWords (words src) fun w hw => lt_of_mem_words hw)
    rw [groupsBytes_ofWords, hbytes] at hfull
    refine ⟨.full front e, ?_, ?_⟩
    · rw [Notation6.text, Notation6.words, htext, map_word_ofWords]
      rfl
    · simp only [Notation6.addr, hfull, hlen, in6addrsz, if_true]
  | some r =>
    obtain ⟨hrun, htwo⟩ := isRun_of_best hbest
    have hle := hrun.le
    have hmem : ∀ w ∈ (words src).take r.base, w < 16 ^ 4 := fun w hw =>
      lt_of_mem_words (List.mem_of_mem_take hw)
    obtain ⟨back, e, htext, hback⟩ := exists_back hlen r
    have hsplit := flatMap_run hrun
    have hfront : (((words src).take r.base).flatMap groupBytes).length = 2 * r.base := by
      rw [length_flatMap_groupBytes, List.length_take]
      omega
    have hrest : (((words src).drop (r.base + r.len)).flatMap groupBytes).length =
        16 - 2 * (r.base + r.len) := by
      rw [length_flatMap_groupBytes, List.length_drop]
      omega
    refine ⟨.gap (Group.ofWords _ hmem) back e, ?_, ?_⟩
    · rw [text_gap, htext, map_word_ofWords]
      rfl
    · -- there is room for the groups that are left out
      have hroom : 2 * r.base + (16 - 2 * (r.base + r.len)) < in6addrsz := by
        rw [in6addrsz]
        omega
      have hzeros : in6addrsz - (2 * r.base + (16 - 2 * (r.base + r.len))) = 2 * r.len := by
        rw [in6addrsz]
        omega
      simp only [Notation6.addr, hback, groupsBytes_ofWords, hfront, hrest, if_pos hroom, hzeros]
      rw [← hsplit, hbytes]

/-! ### There and back -/

theorem quad_text4 {src : List UInt8} (hlen : src.length = 4) :
    quad ((text4 src).splitOn '.') = some src := by
  rw [← word_ofBytes]
  exact (quad_quadText ..).trans (congrArg some (bytes_ofBytes hlen))

/-- The text of an address is read as the address. -/
theorem inetPton_text (junk : Junk) (a : Address) :
    inetPton junk a.family a.text = some (.valid a.bytes) := by
  cases a with
  | v4 a =>
    rw [Address.family, Address.text, inetPton, inetPton4_eq, quad_text4 (Vector.length_toList)]
    rfl
  | v6 a =>
    obtain ⟨n, htext, haddr⟩ := exists_notation a.toList Vector.length_toList
    rw [Address.family, Address.text, inetPton, ← htext, inetPton6_eq, n.meaning_text, haddr]
    rfl

/-- **An address is read back from its text**: what `inet_ntop` stores, `inet_pton` turns into the
same address. -/
theorem inetPton_inetNtop (fr : Frame) (junk : Junk) (a : Address) (dst : List Char) (size : ℕ)
    (hsize : a.text.length < size) (hdst : size ≤ dst.length) :
    ∃ dst', inetNtop fr a.family a.bytes dst size = some (.stored dst') ∧
      dst'.length = dst.length ∧
      inetPton junk a.family (strAt nul dst' 0) = some (.valid a.bytes) := by
  obtain ⟨dst', hntop, hlen, htext⟩ := inetNtop_stored fr a dst size hsize hdst
  exact ⟨dst', hntop, hlen, by rw [htext, inetPton_text]⟩

def Junk.blank : Junk := ⟨[0, 0, 0, 0], rfl⟩

theorem inetPton_inetNtop_loopback :
    let loopback : Address := .v6 #v[0, 0, 0, 0, 0, 0, 0, 0, 0, 0, 0, 0, 0, 0, 0, 1]
    ∃ dst', inetNtop .blank .inet6 loopback.bytes (List.replicate 46 nul) 46 =
        some (.stored dst') ∧ dst'.length = 46 ∧
      inetPton .blank .inet6 (strAt nul dst' 0) = some (.valid loopback.bytes) :=
  inetPton_inetNtop .blank .blank (.v6 #v[0, 0, 0, 0, 0, 0, 0, 0, 0, 0, 0, 0, 0, 0, 0, 1])
    (List.replicate 46 nul) 46 (Nat.lt_of_le_of_lt (Address.length_text _) (by decide)) (by decide)

end TcpIp.Inet
