import TcpIp.Lib.Bytes
import TcpIp.Lib.OnesComplement

/-!
# The Internet checksum

`in_cksum` adds up the bytes of a message as 16-bit words of the machine, in a 32-bit
accumulator, folds the sum into 16 bits and complements it.  The checksum is defined over
words in network byte order, with the carries added in as they come; that the function
computes it, on machines of either byte order, is a property of ones' complement sums.

## Main definitions

* `inCksum` — `in_cksum`.
* `words` — the words of a message; a last odd byte is followed by a zero.
* `internetSum` — the sum that the checksum is defined by.

## Main results

* `toNat_inCksum` — the result, as the complement of a sum of numbers.
* `enc_inCksum` — the result, as it is stored in memory.
* `inCksum_store` — a message with its checksum in it has the checksum zero.
* `inCksum_correct` — all of it.
-/

namespace TcpIp.Free

open Bytes OnesComplement

/-! ### The function -/

/-- The loop of `in_cksum`, and the odd byte. -/
def addWords (o : Order) (sum : UInt32) : List UInt8 → UInt32
  | a :: b :: w => addWords o (sum + UInt32.ofNat (o.dec [a, b])) w
  | [a] => sum + UInt32.ofNat (o.dec [a, 0])
  | [] => sum

/-- The upper 16 bits are added to the lower ones. -/
def foldHigh (sum : UInt32) : UInt32 := (sum >>> 16) + (sum &&& 0xffff)

/-- The carry is added. -/
def addCarry (sum : UInt32) : UInt32 := sum + (sum >>> 16)

/-- `in_cksum`. -/
def inCksum (o : Order) (addr : List UInt8) : UInt16 :=
  let sum := addWords o 0 addr
  let sum := foldHigh sum
  let sum := addCarry sum
  ~~~sum.toUInt16

/-! ### What it is to compute -/

/-- The 16-bit words of a message. -/
def words (o : Order) : List UInt8 → List ℕ
  | a :: b :: w => o.dec [a, b] :: words o w
  | [a] => [o.dec [a, 0]]
  | [] => []

attribute [local simp] addWords words

/-- The ones' complement sum of the words in network byte order. -/
def internetSum (bs : List UInt8) : ℕ := sum 65535 (words .big bs)

/-! ### Words -/

theorem dec_pair_le (o : Order) (a b : UInt8) : o.dec [a, b] ≤ 65535 := by
  have h := o.dec_lt [a, b]
  simp only [List.length_cons, List.length_nil] at h
  omega

theorem words_le (o : Order) : ∀ bs : List UInt8, ∀ w ∈ words o bs, w ≤ 65535 := by
  intro bs
  induction bs using words.induct with
  | case1 a b bs ih =>
    intro w hw
    rcases List.mem_cons.mp hw with rfl | hw
    · exact dec_pair_le o a b
    · exact ih w hw
  | case2 a =>
    intro w hw
    rw [words, List.mem_singleton] at hw
    rw [hw]
    exact dec_pair_le o a 0
  | case3 => intro w hw; cases hw

theorem two_mul_length_words (o : Order) (bs : List UInt8) :
    2 * (words o bs).length = bs.length + bs.length % 2 := by
  induction bs using words.induct with
  | case1 a b bs ih => simp only [words, List.length_cons]; omega
  | case2 a => rfl
  | case3 => rfl

/-- A first part of even length. -/
theorem words_append (o : Order) (bs cs : List UInt8) (heven : bs.length % 2 = 0) :
    words o (bs ++ cs) = words o bs ++ words o cs := by
  induction bs using words.induct with
  | case1 a b bs ih =>
    simp only [List.cons_append, words]
    rw [ih (by simp only [List.length_cons] at heven; omega)]
  | case2 a => simp at heven
  | case3 => rfl

theorem total_words_append (o : Order) (bs cs : List UInt8) (heven : bs.length % 2 = 0) :
    total (words o (bs ++ cs)) = total (words o bs) + total (words o cs) := by
  rw [words_append o bs cs heven, total_append]

/-- A word that has been stored. -/
theorem words_enc_append (o : Order) {n : ℕ} (hn : n ≤ 65535) (cs : List UInt8) :
    words o (o.enc 2 n ++ cs) = n :: words o cs := by
  have hdec : o.dec (o.enc 2 n) = n := by
    rw [Order.dec_enc]
    exact Nat.mod_eq_of_lt (by omega)
  obtain ⟨a, b, hab⟩ := List.length_eq_two.mp (@Order.length_enc 2 n o)
  rw [hab] at hdec ⊢
  rw [List.cons_append, List.cons_append, List.nil_append, words, hdec]

theorem dec_little (a b : UInt8) : Order.little.dec [a, b] = swap 256 (Order.big.dec [a, b]) := by
  have ha := a.toNat_lt
  have hb := b.toNat_lt
  simp only [Order.dec, List.reverse_cons, List.reverse_nil, List.nil_append, List.cons_append,
    ofLowBytes, swap]
  omega

/-- The words of a machine with the other byte order. -/
theorem words_little (bs : List UInt8) : words .little bs = (words .big bs).map (swap 256) := by
  induction bs using words.induct with
  | case1 a b bs ih => rw [words, words, List.map_cons, dec_little, ih]
  | case2 a => rw [words, words, List.map_singleton, dec_little]
  | case3 => rfl

/-- The total has room in 32 bits. -/
theorem total_words_lt (o : Order) {bs : List UInt8} (hlen : bs.length ≤ 131072) :
    total (words o bs) < 2 ^ 32 := by
  have hcount := two_mul_length_words o bs
  have htotal := total_le (words_le o bs)
  omega

/-! ### The sum -/

/-- **The accumulator holds the total**, as long as that has room. -/
theorem toNat_addWords (o : Order) : ∀ (bs : List UInt8) (sum : UInt32),
    sum.toNat + total (words o bs) < 2 ^ 32 →
    (addWords o sum bs).toNat = sum.toNat + total (words o bs) := by
  have hadd : ∀ (sum : UInt32) (n : ℕ), sum.toNat + n < 2 ^ 32 →
      (sum + UInt32.ofNat n).toNat = sum.toNat + n := by
    intro sum n hroom
    rw [UInt32.toNat_add, UInt32.toNat_ofNat']
    omega
  intro bs
  induction bs using words.induct with
  | case1 a b bs ih =>
    intro sum hroom
    simp only [words, total] at hroom ⊢
    have hsum := hadd sum (o.dec [a, b]) (by omega)
    rw [addWords, ih _ (by omega), hsum, Nat.add_assoc]
  | case2 a =>
    intro sum hroom
    simp only [words, total, Nat.add_zero] at hroom ⊢
    rw [addWords, hadd sum _ hroom]
  | case3 => intro sum _; rfl

theorem toNat_foldHigh (sum : UInt32) :
    (foldHigh sum).toNat = sum.toNat / 65536 + sum.toNat % 65536 := by
  have hlow : (sum &&& 0xffff).toNat = sum.toNat % 65536 := by
    rw [UInt32.toNat_and]
    exact Nat.and_two_pow_sub_one_eq_mod sum.toNat 16
  have hhigh : (sum >>> 16).toNat = sum.toNat / 65536 := by
    rw [UInt32.toNat_shiftRight]
    exact Nat.shiftRight_eq_div_pow sum.toNat 16
  have hlt := sum.toNat_lt
  rw [foldHigh, UInt32.toNat_add, hlow, hhigh]
  omega

theorem toNat_addCarry (sum : UInt32) : (addCarry (foldHigh sum)).toNat =
    (foldHigh sum).toNat + (foldHigh sum).toNat / 65536 := by
  have hhigh : (foldHigh sum >>> 16).toNat = (foldHigh sum).toNat / 65536 := by
    rw [UInt32.toNat_shiftRight]
    exact Nat.shiftRight_eq_div_pow _ 16
  have hlt := sum.toNat_lt
  have hfold := toNat_foldHigh sum
  rw [addCarry, UInt32.toNat_add, hhigh]
  omega

/-- The accumulator at the end of the loop, and the odd byte. -/
theorem toNat_addWords_zero (o : Order) {bs : List UInt8} (hlen : bs.length ≤ 131072) :
    (addWords o 0 bs).toNat = total (words o bs) := by
  have htotal := total_words_lt o hlen
  rw [toNat_addWords o bs 0 (by simpa using htotal)]
  exact Nat.zero_add _

/-- **What `in_cksum` returns.** -/
theorem toNat_inCksum (o : Order) {bs : List UInt8} (hlen : bs.length ≤ 131072) :
    (inCksum o bs).toNat = 65535 - norm 65535 (total (words o bs)) := by
  have htotal := total_words_lt o hlen
  have hsum := toNat_addWords_zero o hlen
  have hfold := toNat_foldHigh (addWords o 0 bs)
  have hcarry := toNat_addCarry (addWords o 0 bs)
  rw [inCksum, UInt16.toNat_not, UInt32.toNat_toUInt16, hcarry, hfold, hsum]
  rw [← @fold_eq_norm 65535 _ htotal]
  rfl

/-- The two bytes in memory do not depend on the byte order of the machine. -/
theorem enc_little {n : ℕ} (hn : n ≤ 65535) :
    Order.little.enc 2 (swap 256 n) = Order.big.enc 2 n := by
  have hlow : UInt8.ofNat (swap 256 n) = UInt8.ofNat (n / 256) := by
    refine UInt8.toNat_inj.mp ?_
    rw [UInt8.toNat_ofNat', UInt8.toNat_ofNat', swap]
    omega
  have hhigh : UInt8.ofNat (swap 256 n / 256) = UInt8.ofNat n := by
    have hdiv : swap 256 n / 256 = n % 256 := by
      rw [swap, Nat.add_comm, Nat.add_mul_div_right _ _ (by omega), Nat.div_eq_of_lt (by omega),
        Nat.zero_add]
    refine UInt8.toNat_inj.mp ?_
    rw [UInt8.toNat_ofNat', UInt8.toNat_ofNat', hdiv]
    omega
  simp only [Order.enc, lowBytes, List.reverse_cons, List.reverse_nil, List.nil_append,
    List.cons_append, hlow, hhigh]

theorem internetSum_eq (bs : List UInt8) :
    internetSum bs = norm 65535 (total (words .big bs)) :=
  sum_eq_norm (by omega) (words_le .big bs)

/-- **The result as it is stored**, on a machine of either byte order. -/
theorem enc_inCksum (o : Order) {bs : List UInt8} (hlen : bs.length ≤ 131072) :
    o.enc 2 (inCksum o bs).toNat = Order.big.enc 2 (65535 - internetSum bs) := by
  rw [toNat_inCksum o hlen, internetSum_eq]
  cases o with
  | big => rfl
  | little =>
    have hle := @norm_le 65535 (by omega) (total (words .big bs))
    have hcompl : 65535 - swap 256 (norm 65535 (total (words .big bs))) =
        swap 256 (65535 - norm 65535 (total (words .big bs))) := by
      unfold swap
      omega
    rw [words_little, norm_total_map_swap (by omega) (by omega), hcompl,
      enc_little (by omega)]

theorem enc_two_eq_iff (o : Order) {n : ℕ} (hn : n ≤ 65535) : o.enc 2 n = [0, 0] ↔ n = 0 := by
  have hzero : o.dec [0, 0] = 0 := by cases o <;> rfl
  constructor
  · intro h
    have hdec := @Order.dec_enc 2 n o
    rw [h, hzero] at hdec
    omega
  · rintro rfl
    cases o <;> rfl

/-- The checksum is zero exactly if the words add up to `0xffff`. -/
theorem inCksum_eq_zero_iff (o : Order) {bs : List UInt8} (hlen : bs.length ≤ 131072) :
    inCksum o bs = 0 ↔ internetSum bs = 65535 := by
  have hstored := enc_inCksum o hlen
  have hle := @norm_le 65535 (by omega) (total (words .big bs))
  have hlt := (inCksum o bs).toNat_lt
  rw [← internetSum_eq] at hle
  calc inCksum o bs = 0 ↔ (inCksum o bs).toNat = 0 := UInt16.toNat_inj.symm
    _ ↔ o.enc 2 (inCksum o bs).toNat = [0, 0] := (enc_two_eq_iff o (by omega)).symm
    _ ↔ 65535 - internetSum bs = 0 := by rw [hstored, enc_two_eq_iff .big (by omega)]
    _ ↔ internetSum bs = 65535 := by omega

/-- **A message with its checksum in it**: `pre` and `post` are what stands in front of the
checksum and behind it. -/
theorem inCksum_store (o : Order) {pre post : List UInt8} (heven : pre.length % 2 = 0)
    (hlen : (pre ++ (0 :: 0 :: post)).length ≤ 131072) :
    inCksum o (pre ++ (o.enc 2 (inCksum o (pre ++ (0 :: 0 :: post))).toNat ++ post)) = 0 := by
  have hzero : o.dec [0, 0] = 0 := by cases o <;> rfl
  have htotal : total (words o (pre ++ (0 :: 0 :: post))) =
      total (words o pre) + total (words o post) := by
    rw [total_words_append o _ _ heven, words, total, hzero, Nat.zero_add]
  have hcksum := toNat_inCksum o hlen
  have hstored := @words_enc_append o (inCksum o (pre ++ (0 :: 0 :: post))).toNat
    (by omega) post
  refine UInt16.toNat_inj.mp ?_
  have hlen' : (pre ++ (o.enc 2 (inCksum o (pre ++ (0 :: 0 :: post))).toNat ++ post)).length ≤
      131072 := by
    simp only [List.length_append, List.length_cons, Order.length_enc] at hlen ⊢
    omega
  -- the words are those of the message without the checksum, and the checksum
  have hsum : total (words o
      (pre ++ (o.enc 2 (inCksum o (pre ++ (0 :: 0 :: post))).toNat ++ post))) =
      total (words o (pre ++ (0 :: 0 :: post))) +
        (65535 - norm 65535 (total (words o (pre ++ (0 :: 0 :: post))))) := by
    rw [total_words_append o _ _ heven, hstored, total, hcksum, htotal]
    omega
  rw [toNat_inCksum o hlen', hsum, norm_add_compl (by omega), Nat.sub_self]
  rfl

/-- **`in_cksum` is the Internet checksum**: on a machine of either byte order the two bytes
that are stored are the complement of the sum; the accumulator holds the total of the words
so far at any time, and no carry is lost when it is folded; and a message with its checksum
in it has the checksum zero. -/
theorem inCksum_correct (o : Order) {bs : List UInt8} (hlen : bs.length ≤ 131072) :
    o.enc 2 (inCksum o bs).toNat = Order.big.enc 2 (65535 - internetSum bs) ∧
    (∀ k, (addWords o 0 (bs.take k)).toNat = total (words o (bs.take k))) ∧
    (foldHigh (addWords o 0 bs)).toNat =
      total (words o bs) / 65536 + total (words o bs) % 65536 ∧
    (addCarry (foldHigh (addWords o 0 bs))).toNat =
      (foldHigh (addWords o 0 bs)).toNat + (foldHigh (addWords o 0 bs)).toNat / 65536 ∧
    ∀ (pre post : List UInt8) (x y : UInt8), bs = pre ++ (x :: y :: post) →
      pre.length % 2 = 0 →
      inCksum o (pre ++ (o.enc 2 (inCksum o (pre ++ (0 :: 0 :: post))).toNat ++ post)) = 0 := by
  refine ⟨enc_inCksum o hlen, fun k => toNat_addWords_zero o ?_, ?_, toNat_addCarry _, ?_⟩
  · rw [List.length_take]
    omega
  · rw [toNat_foldHigh, toNat_addWords_zero o hlen]
  · intro pre post x y hbs heven
    refine inCksum_store o heven ?_
    subst hbs
    simpa using hlen

/-- Words whose sum is `0x2ddf0` before the carries are added in. -/
theorem inCksum_correct_example :
    ([0, 0, 0x00, 0x01, 0xf2, 0x03, 0xf4, 0xf5, 0xf6, 0xf7] : List UInt8).length ≤ 131072 ∧
    Order.little.enc 2
        (inCksum .little [0, 0, 0x00, 0x01, 0xf2, 0x03, 0xf4, 0xf5, 0xf6, 0xf7]).toNat =
      Order.big.enc 2 (65535 - 0xddf2) :=
  ⟨by decide, (inCksum_correct .little (by decide)).1⟩

end TcpIp.Free
