import TcpIp.Tcpcliserv.Lockstep

/-!
# One child and its clients

All servers of the directory `server` have the same `web_child`: a client sends lines with numbers,
and gets that many bytes for each of them.  A child of a preforked server calls it for one
connection after the other.  The lines are read with the `Readline` of the library, whose buffer is
static: what one connection leaves in it is there when the next one is served.

## Main definitions

* `webChild`, `childMain` — the functions, of a child that gets its connections one by one.
* `served` — what the clients should get.

## Main results

* `childMain_eq` — **each client gets what its own lines ask for**, however the bytes come in, until
  one of them asks for nothing or for too much, and the child exits.
* `served_request` — what the requests of `client.c` get.
-/

namespace TcpIp.WebChild

open Cut
open Readline hiding pieces
open Bytes (cstring)
open Echo (pieces sendline)

/-! ### The functions -/

/-- `MAXN` -/
def maxN : ℤ := 16384

/-- The width of `long`. -/
structure Long where
  bits : ℕ
  le : 32 ≤ bits

variable (l : Long)

/-- `isspace` -/
def isSpace (c : Char) : Bool := c = ' ' || ('\t' ≤ c && c ≤ '\r')

/-- The number at the start of a text, with its sign. -/
def signed : List Char → ℤ
  | '-' :: s => -(Nat.ofDigitChars 10 (s.takeWhile Char.isDigit) 0 : ℤ)
  | '+' :: s => Nat.ofDigitChars 10 (s.takeWhile Char.isDigit) 0
  | s => Nat.ofDigitChars 10 (s.takeWhile Char.isDigit) 0

/-- `atol`: a number that is too large becomes the largest one, as `strtol` has it. -/
def atol (line : List UInt8) : ℤ :=
  let x := signed ((line.map fun c => Char.ofNat c.toNat).dropWhile isSpace)
  max (-2 ^ (l.bits - 1)) (min x (2 ^ (l.bits - 1) - 1))

/-- `ntowrite = atol(line)`, where `ntowrite` is an `int`. -/
def ntowrite (line : List UInt8) : ℤ := (atol l line + 2 ^ 31) % 2 ^ 32 - 2 ^ 31

inductive Fate where
  | returned
  /-- Left through `err_quit` or `err_sys`. -/
  | exited
  deriving DecidableEq, Repr

/-- A connection. -/
structure Conn where
  stream : List UInt8
  sched : List Sched
  /-- What is on the stack where `web_child` has its `line`. -/
  line : Vector UInt8 maxLine
  /-- Whether the calls of `Writen` succeed. -/
  writes : List Bool

/-- `web_child`: the numbers of bytes that have been written. -/
def webChild : ℕ → Rline × Source → List UInt8 → List Bool → Option (List ℕ × Fate × Rline)
  | 0, _, _, _ => none
  | fuel + 1, s, line, writes =>
    let (r, s) := readline ⟨line, maxLine⟩ s
    if r.rv < 0 then some ([], .exited, s.1)
    else if r.rv = 0 then some ([], .returned, s.1)
    else
      let n := ntowrite l (cstring r.line 0)
      if n ≤ 0 ∨ n > maxN then some ([], .exited, s.1)
      else if writes.headD true then
        (webChild fuel s r.line writes.tail).map fun out => (n.toNat :: out.1, out.2)
      else some ([], .exited, s.1)

/-- The loop of `child_main`, for the connections that `Accept` returns. -/
def childMain (fuel : ℕ) : List Conn → Rline → Option (List (List ℕ) × Fate)
  | [], _ => some ([], .returned)
  | c :: conns, rl => do
    match ← webChild l fuel (rl, .start c.stream c.sched) c.line.toList c.writes with
    | (sent, .exited, _) => some ([sent], .exited)
    | (sent, .returned, rl) => (childMain fuel conns rl).map fun out => (sent :: out.1, out.2)

/-! ### What the clients should get -/

/-- The numbers that a client asks for, line by line. -/
def wanted (stream : List UInt8) : List ℤ := (pieces stream).map (ntowrite l)

def allowed (n : ℤ) : Bool := 0 < n && n ≤ maxN

/-- What a client gets. -/
def replies (stream : List UInt8) : List ℕ := ((wanted l stream).takeWhile allowed).map Int.toNat

def fate (stream : List UInt8) : Fate :=
  if (wanted l stream).all allowed then .returned else .exited

/-- What the clients get, one after the other. -/
def served : List (List UInt8) → List (List ℕ) × Fate
  | [] => ([], .returned)
  | stream :: streams =>
    match fate l stream with
    | .exited => ([replies l stream], .exited)
    | .returned => (replies l stream :: (served streams).1, (served streams).2)

/-! ### One connection -/

section Connection

variable {l} {stream line : List UInt8} {writes : List Bool} {s : Rline × Source}

/-- A line is read: what the library has shown of `readline`, in the terms of `web_child`. -/
theorem readline_line (hs : Interrupted stream s.2) (hline : line.length = maxLine) :
    ∃ r s', readline ⟨line, maxLine⟩ s = (r, s') ∧ Interrupted stream s'.2 ∧
      view s' = (view s).drop (Echo.line (view s)).length ∧ r.line.length = maxLine ∧
      cstring r.line 0 = sendline (view s) ∧ (view s = [] → r.rv = 0) ∧
      (view s ≠ [] → 0 < r.rv) := by
  obtain ⟨s', hread, hs', hview⟩ := (myRead_reads stream).meets eofCount (fun _ => True)
    ⟨line, maxLine⟩ s trivial hs
  have hvalid : Call.Valid ⟨line, maxLine⟩ := ⟨show 2 ≤ maxLine by decide, Nat.le_of_eq hline.symm⟩
  have hlt := length_piece_lt hvalid (view s)
  obtain ⟨-, hret⟩ := line_returns (c := ⟨line, maxLine⟩) hlt fun _ => eofCount_terminates _
  refine ⟨_, s', hread, hs', hview, ?_, ?_, ?_, ?_⟩
  · rw [hret]
    simp only [List.length_append, List.length_cons, List.length_drop] at hlt ⊢
    omega
  · rw [sendline, Bytes.cstring_eq (List.drop_zero.trans hret), cstring, List.drop_zero]
    rfl
  · intro hnil
    rw [hnil]
    rfl
  · intro hne
    have hpos := List.length_pos_of_ne_nil (Echo.line_ne_nil hne)
    simp only [Echo.line] at hpos
    rw [returns]
    cases hend : (cut isNewline (maxLine - 1) (view s)).2 <;>
      simp only [finish, eofCount] <;> omega

theorem wanted_of_ne_nil (h : stream ≠ []) : wanted l stream =
    ntowrite l (sendline stream) :: wanted l (stream.drop (Echo.line stream).length) := by
  rw [wanted, Echo.pieces_of_ne_nil h, List.map_cons, wanted]

theorem allowed_eq (n : ℤ) : allowed n = !decide (n ≤ 0 ∨ n > maxN) := by
  rw [allowed, Bool.eq_iff_iff]
  simp only [Bool.and_eq_true, decide_eq_true_eq, Bool.not_eq_true', decide_eq_false_iff_not]
  omega

theorem headD_eq_true (h : false ∉ writes) : writes.headD true = true := by
  cases writes with
  | nil => rfl
  | cons b writes =>
    cases b with
    | true => rfl
    | false => exact absurd List.mem_cons_self h

/-- **One client gets what its lines ask for**, and leaves nothing in the buffer. -/
theorem webChild_eq (stream : List UInt8) : ∀ (input : List UInt8) (s : Rline × Source)
    (line : List UInt8) (writes : List Bool) (fuel : ℕ), view s = input →
    Interrupted stream s.2 → line.length = maxLine → false ∉ writes →
    (pieces input).length < fuel →
    ∃ rl, webChild l fuel s line writes = some (replies l input, fate l input, rl) ∧
      (fate l input = .returned → rl.unread = []) := by
  intro input
  induction input using Echo.pieces.induct with
  | case1 =>
    intro s line writes fuel hview hs hline hwrites hfuel
    obtain ⟨fuel, rfl⟩ := Nat.exists_eq_succ_of_ne_zero (Nat.ne_of_gt (Nat.zero_lt_of_lt hfuel))
    obtain ⟨r, s', hread, -, hview', -, -, hzero, -⟩ := readline_line hs hline
    rw [hview, List.drop_nil] at hview'
    refine ⟨s'.1, ?_, fun _ => (List.append_eq_nil_iff.mp hview').1⟩
    simp [webChild, hread, hzero hview, replies, fate, wanted, Echo.pieces_nil]
  | case2 input hne ih =>
    intro s line writes fuel hview hs hline hwrites hfuel
    obtain ⟨fuel, rfl⟩ := Nat.exists_eq_succ_of_ne_zero (Nat.ne_of_gt (Nat.zero_lt_of_lt hfuel))
    obtain ⟨r, s', hread, hs', hview', hlen, hstr, -, hpos⟩ := readline_line hs hline
    rw [hview] at hview' hstr hpos
    have hrv := hpos hne
    rw [Echo.pieces_of_ne_nil hne, List.length_cons] at hfuel
    rw [replies, fate, wanted_of_ne_nil hne, List.takeWhile_cons, List.all_cons]
    simp only [webChild, hread, hstr, if_neg (Int.not_lt.mpr (Int.le_of_lt hrv)),
      if_neg (Int.ne_of_gt hrv)]
    rw [allowed_eq]
    by_cases hbad : ntowrite l (sendline input) ≤ 0 ∨ ntowrite l (sendline input) > maxN
    · rw [if_pos hbad, decide_eq_true hbad]
      refine ⟨s'.1, rfl, fun hret => ?_⟩
      simp at hret
    · obtain ⟨rl, hrest, hunread⟩ := ih s' r.line writes.tail fuel hview' hs' hlen
        (fun hmem => hwrites (List.mem_of_mem_tail hmem)) (by omega)
      rw [if_neg hbad, if_pos (headD_eq_true hwrites), hrest, decide_eq_false hbad]
      exact ⟨rl, rfl, by simpa [fate] using hunread⟩

end Connection

/-- Nothing fails but calls of `read` that are interrupted. -/
def Conn.Good (c : Conn) : Prop := (∀ e, .fail e ∈ c.sched → e = .eintr) ∧ false ∉ c.writes

/-- **Each client gets what its own lines ask for**, however its bytes come in, and nothing of one
connection is left for the next one.  The child exits when a client asks for no bytes or for more
than `MAXN`. -/
theorem childMain_eq (conns : List Conn) (hgood : ∀ c ∈ conns, c.Good) :
    ∃ fuel₀, ∀ fuel ≥ fuel₀, childMain l fuel conns Rline.init =
      some (served l (conns.map (·.stream))) := by
  suffices h : ∀ conns : List Conn, (∀ c ∈ conns, c.Good) → ∃ fuel₀, ∀ fuel ≥ fuel₀, ∀ rl : Rline,
      rl.unread = [] → childMain l fuel conns rl = some (served l (conns.map (·.stream))) by
    obtain ⟨fuel₀, hfuel⟩ := h conns hgood
    exact ⟨fuel₀, fun fuel hle => hfuel fuel hle _ rfl⟩
  intro conns
  induction conns with
  | nil => exact fun _ => ⟨0, fun _ _ _ _ => rfl⟩
  | cons c conns ih =>
    intro hgood
    obtain ⟨fuel₀, hrest⟩ := ih fun c hc => hgood c (List.mem_cons_of_mem _ hc)
    obtain ⟨hsched, hwrites⟩ := hgood c List.mem_cons_self
    refine ⟨max fuel₀ ((pieces c.stream).length + 1), fun fuel hle rl hrl => ?_⟩
    have hview : view (rl, .start c.stream c.sched) = c.stream := by
      rw [view, hrl]
      rfl
    obtain ⟨rl', hweb, hunread⟩ := webChild_eq (l := l) c.stream c.stream _ c.line.toList c.writes
      fuel hview ⟨hsched, rfl⟩ Vector.length_toList hwrites (by omega)
    rw [childMain, hweb, List.map_cons, served]
    cases hfate : fate l c.stream with
    | exited => rfl
    | returned =>
      rw [hfate] at hunread
      simp [hrest fuel (by omega) rl' (hunread rfl)]

/-- The bytes of a second line come in with the first one, and the client that is served next has
bytes of its own. -/
def twoClients : List Conn :=
  [⟨[50, 10, 51, 10], [.chunk 2, .fail .eintr], Vector.replicate maxLine 7, []⟩,
    ⟨[52, 10], [], Vector.replicate maxLine 8, []⟩]

theorem childMain_eq_twoClients :
    ∃ fuel₀, ∀ fuel ≥ fuel₀, childMain ⟨64, by decide⟩ fuel twoClients Rline.init =
      some (served ⟨64, by decide⟩ [[50, 10, 51, 10], [52, 10]]) :=
  childMain_eq ⟨64, by decide⟩ twoClients (by simp [twoClients, Conn.Good])

/-! ### The requests of the client -/

/-- `%d` -/
def decimal (n : ℤ) : List Char :=
  if n < 0 then '-' :: Nat.toDigits 10 n.natAbs else Nat.toDigits 10 n.natAbs

/-- `snprintf(request, sizeof(request), "%d\n", nbytes)` -/
def request (nbytes : ℤ) : List UInt8 :=
  (decimal nbytes).map (fun c => UInt8.ofNat c.toNat) ++ [newline]

section Request

variable {l} {n : ℤ}

theorem toNat_of_mem_toDigits {m : ℕ} {c : Char} (h : c ∈ Nat.toDigits 10 m) :
    48 ≤ c.toNat ∧ c.toNat ≤ 57 := by
  have := Nat.isDigit_of_mem_toDigits (by decide) (by decide) h
  simpa [Char.isDigit, UInt32.le_iff_toNat_le] using this

theorem toNat_of_mem_decimal {c : Char} (h : c ∈ decimal n) :
    (UInt8.ofNat c.toNat).toNat = c.toNat ∧ 45 ≤ c.toNat := by
  have hc : 45 ≤ c.toNat ∧ c.toNat ≤ 57 := by
    rw [decimal] at h
    split at h
    · rcases List.mem_cons.mp h with rfl | h
      · decide
      · have := toNat_of_mem_toDigits h
        omega
    · have := toNat_of_mem_toDigits h
      omega
  exact ⟨by rw [UInt8.toNat_ofNat', Nat.mod_eq_of_lt (by omega)], hc.1⟩

/-- The bytes of a number are no newlines and no terminators. -/
theorem ne_of_mem_bytes {b x : UInt8} (hx : x.toNat < 45)
    (h : b ∈ (decimal n).map fun c => UInt8.ofNat c.toNat) : b ≠ x := by
  rintro rfl
  obtain ⟨c, hc, rfl⟩ := List.mem_map.mp h
  have := toNat_of_mem_decimal hc
  omega

theorem length_decimal_le (hn : n.natAbs < 10 ^ 10) : (decimal n).length ≤ 11 := by
  have hlen : (Nat.toDigits 10 n.natAbs).length ≤ 10 :=
    (Nat.length_toDigits_le_iff (by decide) (by decide)).mpr hn
  rw [decimal]
  split
  · exact Nat.succ_le_succ hlen
  · omega

/-- A request is one line. -/
theorem pieces_request (hn : n.natAbs < 10 ^ 10) : pieces (request n) = [request n] := by
  have hlen := length_decimal_le hn
  have hne : request n ≠ [] := by simp [request]
  have hidx : (request n).findIdx isNewline = (decimal n).length := by
    have hnone : ((decimal n).map fun c => UInt8.ofNat c.toNat).findIdx isNewline =
        (decimal n).length := by
      rw [← List.length_map (f := fun c : Char => UInt8.ofNat c.toNat), List.findIdx_eq_length]
      exact fun b hb => beq_eq_false_iff_ne.mpr (ne_of_mem_bytes (by decide) hb)
    rw [request, List.findIdx_append, hnone, List.length_map, if_neg (Nat.lt_irrefl _)]
    simp [isNewline]
  have hline : Echo.line (request n) = request n := by
    rw [Echo.line, cut_fst, hidx]
    refine List.take_of_length_le ?_
    simp only [request, List.length_append, List.length_map, List.length_singleton, maxLine]
    omega
  have hsend : sendline (request n) = request n := by
    rw [sendline, hline, cstring, List.drop_zero, List.takeWhile_eq_self_iff]
    intro b hb
    rcases List.mem_append.mp hb with hb | hb
    · exact decide_eq_true (ne_of_mem_bytes (by decide) hb)
    · rw [List.mem_singleton.mp hb]
      decide
  rw [Echo.pieces_of_ne_nil hne, hline, hsend, List.drop_length, Echo.pieces_nil]

theorem digits_value (m : ℕ) :
    Nat.ofDigitChars 10 ((Nat.toDigits 10 m ++ ['\n']).takeWhile Char.isDigit) 0 = m := by
  rw [List.takeWhile_append_of_pos fun c hc =>
    Nat.isDigit_of_mem_toDigits (by decide) (by decide) hc]
  simp [Nat.ofDigitChars_toDigits]

/-- What `atol` reads is what `snprintf` wrote. -/
theorem signed_decimal (n : ℤ) : signed ((decimal n ++ ['\n']).dropWhile isSpace) = n := by
  rw [decimal]
  split
  · rw [List.cons_append, List.dropWhile_cons_of_neg (by decide), signed, digits_value]
    omega
  · have hdigits := digits_value n.natAbs
    obtain ⟨c, cs, hcs⟩ := List.exists_cons_of_ne_nil (@Nat.toDigits_ne_nil n.natAbs 10)
    have hc := (toNat_of_mem_toDigits (hcs ▸ List.mem_cons_self : c ∈ _)).1
    have hne : ∀ x : Char, x.toNat < 48 → c ≠ x := by
      rintro x hx rfl
      omega
    have hspace : isSpace c = false := by
      have htab : ¬ c ≤ '\r' := fun hle => by
        have : c.toNat ≤ 13 := hle
        omega
      simp [isSpace, hne ' ' (by decide), htab]
    rw [hcs, List.cons_append] at hdigits ⊢
    rw [List.dropWhile_cons_of_neg (by simp [hspace]), signed.eq_def]
    split
    · next h => exact absurd (List.cons.inj h).1 (hne '-' (by decide))
    · next h => exact absurd (List.cons.inj h).1 (hne '+' (by decide))
    · rw [hdigits]
      omega

/-- A request asks for as many bytes as it says. -/
theorem ntowrite_request (hlo : -2 ^ 31 ≤ n) (hhi : n < 2 ^ 31) : ntowrite l (request n) = n := by
  have hchars : (request n).map (fun c => Char.ofNat c.toNat) = decimal n ++ ['\n'] := by
    rw [request, List.map_append, List.map_map]
    congr 1
    refine (List.map_congr_left fun c hc => ?_).trans (List.map_id _)
    rw [Function.comp_apply, (toNat_of_mem_decimal hc).1, Char.ofNat_toNat, id]
  have hbits : (2 : ℤ) ^ 31 ≤ 2 ^ (l.bits - 1) := by
    have := l.le
    exact_mod_cast Nat.pow_le_pow_right (show 0 < 2 by decide) (show 31 ≤ l.bits - 1 by omega)
  rw [ntowrite, atol, hchars, signed_decimal]
  omega

end Request

/-- **What the client of `client.c` gets**, for every `nbytes` that is an `int`: the bytes it asks
for, if there are any and no more of them than `MAXN`. -/
theorem served_request (n : ℤ) (hlo : -2 ^ 31 ≤ n) (hhi : n < 2 ^ 31) : served l [request n] =
    if 1 ≤ n ∧ n ≤ maxN then ([[n.toNat]], .returned) else ([[]], .exited) := by
  have hwanted : wanted l (request n) = [n] := by
    rw [wanted, pieces_request (by omega), List.map_singleton, ntowrite_request hlo hhi]
  have hallowed : allowed n = decide (1 ≤ n ∧ n ≤ maxN) := by
    rw [allowed, Bool.decide_and]
    rfl
  simp only [served, replies, fate, hwanted, List.takeWhile_cons, List.all_cons, hallowed]
  by_cases h : 1 ≤ n ∧ n ≤ maxN
  · simp [h]
  · simp [h]

theorem served_request_largest :
    served ⟨64, by decide⟩ [request 16384] = ([[16384]], .returned) :=
  served_request ⟨64, by decide⟩ 16384 (by decide) (by decide)

end TcpIp.WebChild
