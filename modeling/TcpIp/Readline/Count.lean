import TcpIp.Readline.Stream

/-!
# The number `readline` returns

In the loop of `readline` the counter is one ahead of the number of bytes stored.  The
end of file subtracts the one, and the newline leaves the loop before the counter is
incremented.  When the loop ends at its limit nothing makes up for it: the number
returned is `maxlen`, and one more than the bytes stored.

Errors are part of the picture here: the descriptor may fail in any way and at any time.

## Main definitions

* `Gets` — getting a byte, which may fail.
* `Counts` — the number returned is that of the bytes stored, and there was room for them.
* `EndsWithin` — a newline or the end of file comes in time.

## Main results

* `readline_counts_iff` — when `readline` returns the number of bytes it has stored.
-/

namespace TcpIp.Readline

open Cut

variable {σ : Type*}

/-- `getc` takes the next byte off the view, or finds the end of it, or fails. -/
inductive Gets (getc : σ → Rc × σ) (view : σ → List UInt8) (s : σ) : Prop
  | byte {c : UInt8} {s' : σ} (hget : getc s = (.byte c, s')) (hview : view s = c :: view s')
  | eof {s' : σ} (hget : getc s = (.eof, s')) (hview : view s = [])
  | error {s' : σ} (hget : getc s = (.error, s'))

/-- The loop fails, or cuts the next piece off the view.  The induction is on the rounds
to go. -/
theorem readLoop_fails_or {getc : σ → Rc × σ} {view : σ → List UInt8}
    (h : ∀ s, Gets getc view s) (atEof : AtEof) : ∀ (k n ptr : ℕ) (line : List UInt8) (s : σ),
    (readLoop getc atEof k n ptr line s).1.rv = -1 ∨
      (readLoop getc atEof k n ptr line s).1 =
        finish atEof n ptr line (cut isNewline k (view s)).1 (cut isNewline k (view s)).2 := by
  intro k
  induction k with
  | zero =>
    intro n ptr line s
    exact .inr (by simp [readLoop, finish, put])
  | succ k ih =>
    intro n ptr line s
    cases h s with
    | @byte c s' hget hview =>
      rw [hview, cut_succ_cons]
      cases hc : isNewline c with
      | true =>
        refine .inr ?_
        simp [readLoop, hget, body, hc, finish, put]
      | false =>
        rw [if_neg (by simp), finish_cons]
        simpa [readLoop, hget, body, hc] using ih (n + 1) (ptr + 1) (line.set ptr c) s'
    | eof hget hview =>
      refine .inr ?_
      rw [hview]
      simp [readLoop, hget, body, finish, put]
    | error hget =>
      refine .inl ?_
      simp [readLoop, hget, body]

/-- The retries end with what one `read` returns. -/
theorem readAgain_cases (pending taken : List UInt8) : ∀ (sched : List Sched),
    (∃ e src, readAgain pending taken sched = (.error e, src)) ∨
      ∃ k src, 0 < k ∧ readAgain pending taken sched = (.ok (pending.take k), src) ∧
        src.pending = pending.drop k := by
  intro sched
  induction sched with
  | nil => exact .inr ⟨maxLine, _, maxLine_pos, rfl, rfl⟩
  | cons d sched ih =>
    cases d with
    | chunk m =>
      have hpos : 0 < min (m + 1) maxLine := Nat.lt_min.mpr ⟨Nat.succ_pos m, maxLine_pos⟩
      exact .inr ⟨min (m + 1) maxLine, _, hpos, rfl, rfl⟩
    | fail e =>
      cases e with
      | eintr => exact ih
      | eagain | ebadf | epipe | econnaborted | eproto | other => exact .inl ⟨_, _, rfl⟩

/-- `my_read` takes the next unread byte of the buffer, or of the kernel when there is
none, unless `read` fails. -/
theorem myRead_gets (s : Rline × Source) : Gets myRead view s := by
  obtain ⟨r, src⟩ := s
  by_cases hcnt : r.cnt ≤ 0
  · have hview : view (r, src) = src.pending := by
      rw [view, Rline.unread_of_cnt_nonpos hcnt, List.nil_append]
    obtain ⟨e, src', hread⟩ | ⟨k, src', hk, hread, hpending⟩ :=
      readAgain_cases src.pending src.taken src.sched
    · have hget : myRead (r, src) = (.error, (r.fill (.error e)).2, src') := by
        simp only [myRead, hcnt, dite_true, hread]
        rfl
      exact .error hget
    · obtain ⟨j, rfl⟩ := Nat.exists_eq_succ_of_ne_zero (Nat.pos_iff_ne_zero.mp hk)
      cases hsrc : src.pending with
      | nil =>
        rw [hsrc, List.take_nil] at hread
        obtain ⟨r', hfill, -⟩ := r.fill_nil
        have hget : myRead (r, src) = (.eof, r', src') := by
          simp only [myRead, hcnt, dite_true, hsrc, hread, hfill]
        exact .eof hget (hview.trans hsrc)
      | cons c t =>
        rw [hsrc, List.take_succ_cons] at hread
        rw [hsrc, List.drop_succ_cons] at hpending
        obtain ⟨r', hfill, hunread⟩ := r.fill_cons c (t.take j)
        have hget : myRead (r, src) = (.byte c, r', src') := by
          simp only [myRead, hcnt, dite_true, hsrc, hread, hfill]
        refine .byte hget ?_
        rw [hview, hsrc, view, hunread, hpending, List.take_append_drop]
  · obtain ⟨c, r', hnext, hunread⟩ := r.next_unread (by omega)
    have hget : myRead (r, src) = (.byte c, r', src) := by
      simp only [myRead, hcnt, dite_false, hnext]
    refine .byte hget ?_
    rw [view, hunread]
    rfl

/-- The number returned is that of the bytes of the stream in front of the terminating
zero, and there was room for both. -/
def Counts (c : Call) (v : List UInt8) (r : Ret) : Prop :=
  ∃ n : ℕ, r.rv = n ∧ n ≤ v.length ∧ n + 1 ≤ c.maxlen ∧
    r.line = v.take n ++ 0 :: c.line.drop (n + 1)

/-- A newline is among the next `maxlen - 1` bytes, or the stream ends before there are so
many. -/
def EndsWithin (maxlen : ℕ) (v : List UInt8) : Prop :=
  (∃ c ∈ v.take (maxlen - 1), isNewline c = true) ∨ v.length < maxlen - 1

instance (maxlen : ℕ) (v : List UInt8) : Decidable (EndsWithin maxlen v) :=
  inferInstanceAs (Decidable (_ ∨ _))

/-- The loop runs to its limit exactly if neither comes. -/
theorem endsWithin_iff (maxlen : ℕ) (v : List UInt8) :
    EndsWithin maxlen v ↔ (cut isNewline (maxlen - 1) v).2 ≠ .full := by
  rw [Ne, cut_full_iff, EndsWithin, not_and_or, not_le, or_comm]
  simp only [not_forall, Bool.not_eq_false, exists_prop]

/-- What a call returns counts what it has stored, unless the piece was cut at the limit. -/
theorem counts_returns_iff {c : Call} (hpos : 1 ≤ c.maxlen) (hfits : c.maxlen ≤ c.line.length)
    (v : List UInt8) :
    Counts c v (returns eofCount c (cut isNewline (c.maxlen - 1) v)) ↔
      (cut isNewline (c.maxlen - 1) v).2 ≠ .full := by
  have hlen : (cut isNewline (c.maxlen - 1) v).1.length ≤ c.maxlen - 1 := length_cut_le _ v
  have hline := (@line_returns eofCount c (cut isNewline (c.maxlen - 1) v) (by omega)
    fun _ => eofCount_terminates _).2
  have hpiece : (cut isNewline (c.maxlen - 1) v).1
      = v.take (cut isNewline (c.maxlen - 1) v).1.length := by
    have happend := congrArg (List.take (cut isNewline (c.maxlen - 1) v).1.length)
      (@cut_append_drop _ isNewline (c.maxlen - 1) v)
    rw [List.take_left] at happend
    exact happend
  have hle : (cut isNewline (c.maxlen - 1) v).1.length ≤ v.length := by
    rw [hpiece, List.length_take]
    exact Nat.min_le_right _ _
  constructor
  · -- at the limit the number returned is `maxlen`
    rintro ⟨n, hrv, -, hroom, -⟩ hfull
    have hall := (@cut_full _ isNewline _ v hfull).1
    simp only [returns, finish, hfull, hall] at hrv
    omega
  · intro hne
    refine ⟨(cut isNewline (c.maxlen - 1) v).1.length, ?_, hle, by omega, ?_⟩
    · cases hend : (cut isNewline (c.maxlen - 1) v).2 with
      | full => exact absurd hend hne
      | stop =>
        simp only [returns, finish, hend]
        omega
      | eof =>
        simp only [returns, finish, hend, eofCount]
        omega
    · rw [hline, ← hpiece]

/-- **The number `readline` returns.**  From any state of its buffer and for any descriptor:
a call that does not fail returns the number of bytes it has stored, with room for the
terminating zero, exactly if a newline or the end of file comes within the next
`maxlen - 1` bytes. -/
theorem readline_counts_iff (c : Call) (hpos : 1 ≤ c.maxlen) (hfits : c.maxlen ≤ c.line.length)
    (s : Rline × Source) (hrv : 0 ≤ (readline c s).1.rv) :
    Counts c (view s) (readline c s).1 ↔ EndsWithin c.maxlen (view s) := by
  have hreturns :
      (readline c s).1 = returns eofCount c (cut isNewline (c.maxlen - 1) (view s)) := by
    rcases readLoop_fails_or myRead_gets eofCount (c.maxlen - 1) 1 0 c.line s with hfail | hok
    · have hneg : (readline c s).1.rv = -1 := hfail
      omega
    · exact hok
  rw [hreturns, endsWithin_iff]
  exact counts_returns_iff hpos hfits (view s)

/-- A line that ends within the limit. -/
theorem readline_counts_iff_short :
    (readline ⟨[7, 7, 7, 7], 4⟩ (Rline.init, Source.start [97, 98, 10, 99] [.chunk 1])).1.rv = 3 ∧
      Counts ⟨[7, 7, 7, 7], 4⟩ [97, 98, 10, 99]
        (readline ⟨[7, 7, 7, 7], 4⟩ (Rline.init, Source.start [97, 98, 10, 99] [.chunk 1])).1 :=
  ⟨by decide, (readline_counts_iff ⟨[7, 7, 7, 7], 4⟩ (by decide) (by decide)
    (Rline.init, Source.start [97, 98, 10, 99] [.chunk 1]) (by decide)).mpr (by decide)⟩

/-- A line of three bytes and a limit of three: two are stored, and the number returned
is three. -/
theorem readline_counts_zero_byte :
    (readline ⟨[7, 7, 7], 3⟩ (Rline.init, Source.start [97, 98, 10] [])).1 = ⟨3, 2, [97, 98, 0]⟩ ∧
      ¬Counts ⟨[7, 7, 7], 3⟩ [97, 98, 10]
        (readline ⟨[7, 7, 7], 3⟩ (Rline.init, Source.start [97, 98, 10] [])).1 := by
  have hret : (readline ⟨[7, 7, 7], 3⟩ (Rline.init, Source.start [97, 98, 10] [])).1 =
      ⟨3, 2, [97, 98, 0]⟩ := by decide
  refine ⟨hret, ?_⟩
  rw [hret]
  rintro ⟨n, hrv, -, hroom, -⟩
  simp only at hrv hroom
  omega

end TcpIp.Readline
