import TcpIp.Readline.Stream

/-!
# The other versions of `readline`

Besides the library's there are a version with one buffer for each thread
(`threads/readline.c`), one that reads a byte at a time (`server/readline.c`) and
a re-entrant one (`server/readline_r.c`).  The servers take them for
interchangeable.  They are, up to one difference: at the end of file after some
data the last two leave the loop instead of returning the count, so that they
report one byte more than they stored.

## Main definitions

* `Threads.readline`, `Server.readline`, `readlineR` — the three versions.
* `Ret.observed` — what a caller sees of a call.

## Main results

* `rvOf_eq_iff` — the two ways to report a piece differ exactly on a piece cut short
  by the end of file.
* `readlines_agree_iff` — when the four versions agree.
-/

namespace TcpIp.Readline

open Cut

/-! ### One buffer for each thread -/

namespace Threads

/-- The thread-specific data under `rl_key`, by thread. -/
abbrev Tsd := ℕ → Option Rline

/-- `readline` of `threads/readline.c`, called by the thread `tid`: its own copy of
the buffer is allocated, all zero, in its first call. -/
def readline (tid : ℕ) (c : Call) (s : Tsd × Source) : Ret × Tsd × Source :=
  let tsd := (s.1 tid).getD Rline.init
  let (ret, tsd, src) := readWith myRead eofCount c (tsd, s.2)
  (ret, Function.update s.1 tid (some tsd), src)

/-- What the thread has not got yet. -/
def view (tid : ℕ) (s : Tsd × Source) : List UInt8 :=
  Readline.view ((s.1 tid).getD Rline.init, s.2)

theorem readline_meets (tid : ℕ) (stream : List UInt8) (V : Call → Prop) :
    Meets (readline tid) eofCount V (fun s => Interrupted stream s.2) (view tid) := by
  rintro c ⟨tsd, src⟩ hc hs
  obtain ⟨s', hread, hs', hview⟩ :=
    (myRead_reads stream).meets eofCount V c ((tsd tid).getD Rline.init, src) hc hs
  refine ⟨(Function.update tsd tid (some s'.1), s'.2), ?_, hs', ?_⟩
  · simp only [readline, hread]
    rfl
  · simp only [view, Function.update_self]
    exact hview

end Threads

/-! ### A byte at a time -/

namespace Server

/-- `read(fd, &c, 1)`. -/
def getc (src : Source) : Rc × Source :=
  match src.read 1 with
  | (.ok (c :: _), src) => (.byte c, src)
  | (.ok [], src) => (.eof, src)
  | (.error _, src) => (.error, src)

/-- `readline` of `server/readline.c`. -/
def readline (c : Call) (src : Source) : Ret × Source := readWith getc eofBreak c src

/-- Without failures the bytes are those of the stream.  An interrupted `read`
is not made again here, so none is allowed. -/
theorem getc_reads (stream : List UInt8) :
    Reads getc (Source.Carries (fun _ => False) stream) Source.pending where
  byte := by
    intro src c t hsrc hview
    obtain ⟨k, hk, hle, src', hread, hpending, hsrc'⟩ := hsrc.read_ok Nat.zero_lt_one
      (by intro e sched h; exact hsrc.fails e (by rw [h]; exact List.mem_cons_self))
    obtain rfl : k = 1 := by omega
    rw [hview] at hread hpending
    exact ⟨src', by simp [getc, hread], hsrc', hpending⟩
  eof := by
    intro src hsrc hview
    obtain ⟨k, hk, hle, src', hread, hpending, hsrc'⟩ := hsrc.read_ok Nat.zero_lt_one
      (by intro e sched h; exact hsrc.fails e (by rw [h]; exact List.mem_cons_self))
    rw [hview, List.take_nil] at hread
    rw [hview, List.drop_nil] at hpending
    exact ⟨src', by simp [getc, hread], hsrc', hpending⟩

end Server

/-! ### The re-entrant version -/

/-- The caller's structure: the limit and the buffer.  The memory `read_ptr` points
to is passed with each call. -/
structure RlineR where
  maxlen : ℕ
  rl : Rline

/-- `readline_rinit`: the counter is zero; the rest of the buffer is what it was. -/
def readlineRinit (maxlen : ℕ) (rptr : RlineR) : RlineR :=
  ⟨maxlen, { rptr.rl with cnt := 0, ptr := 0, inside := by simp }⟩

/-- `my_read_r`: as `my_read`, with the byte cut to eight bits. -/
def myReadR (s : Rline × Source) : Rc × Rline × Source :=
  match myRead s with
  | (.byte c, s) => (.byte (c &&& 255), s)
  | (rc, s) => (rc, s)

/-- `readline_r`. -/
def readlineR (line : List UInt8) (s : RlineR × Source) : Ret × RlineR × Source :=
  let (ret, rl, src) := readWith myReadR eofBreak ⟨line, s.1.maxlen⟩ (s.1.rl, s.2)
  (ret, { s.1 with rl }, src)

theorem myReadR_eq_myRead (s : Rline × Source) : myReadR s = myRead s := by
  have hand (c : UInt8) : c &&& 255 = c := UInt8.and_neg_one
  rcases h : myRead s with ⟨_ | _ | _, s'⟩ <;> simp [myReadR, h, hand]

/-- In calls with the limit the structure was initialised with. -/
theorem readlineR_meets (maxlen : ℕ) (stream : List UInt8) :
    Meets (fun c => readlineR c.line) eofBreak (·.maxlen = maxlen)
      (fun s => s.1.maxlen = maxlen ∧ Interrupted stream s.2) (fun s => view (s.1.rl, s.2)) := by
  rintro ⟨line, _⟩ ⟨⟨_, rl⟩, src⟩ rfl ⟨hlen, hs⟩
  simp only at hlen
  subst hlen
  have hgetc := myRead_reads stream
  rw [← funext myReadR_eq_myRead] at hgetc
  obtain ⟨s', hread, hs', hview⟩ :=
    hgetc.meets eofBreak (fun _ => True) ⟨line, _⟩ (rl, src) trivial hs
  refine ⟨(⟨_, s'.1⟩, s'.2), ?_, ⟨rfl, hs'⟩, hview⟩
  simp only [readlineR, hread]

/-! ### What a caller sees -/

/-- The return value and the stored bytes of a call. -/
def Ret.observed (r : Ret) : ℤ × List UInt8 := (r.rv, r.stored)

/-- The results of a sequence of calls. -/
def observe {σ : Type*} (readline : Call → σ → Ret × σ) (cs : List Call) (s : σ) :
    List (ℤ × List UInt8) := (calls readline cs s).1.map Ret.observed

/-- The value returned with a piece: the number of bytes stored, one more if the
limit ended the piece, and what `short` says if the end of file did. -/
def rvOf (short : ℕ → ℤ) : List UInt8 × End → ℤ
  | (piece, .stop) => piece.length
  | (piece, .full) => piece.length + 1
  | (piece, .eof) => short piece.length

/-- What the versions that break out of the loop return at the end of file. -/
def breakRv (k : ℕ) : ℤ := if k = 0 then 0 else k + 1

theorem observed_eofCount {c : Call} {p : List UInt8 × End} (hp : p.1.length < c.line.length) :
    (returns eofCount c p).observed = (rvOf (fun k => k) p, p.1) := by
  rw [Ret.observed, stored_returns hp fun _ => eofCount_terminates _]
  rcases p with ⟨piece, e⟩
  have hcount : (1 : ℤ) + piece.length - 1 = piece.length := by omega
  cases e with
  | stop => simp [returns, finish, rvOf, hcount]
  | full => simp [returns, finish, rvOf, Int.add_comm]
  | eof => simp [returns, finish, rvOf, eofCount, hcount]

theorem observed_eofBreak {c : Call} {p : List UInt8 × End} (hp : p.1.length < c.line.length) :
    (returns eofBreak c p).observed = (rvOf breakRv p, p.1) := by
  by_cases hnil : p.1 = []
  · -- nothing was read: nothing is stored either, not even the zero
    rcases p with ⟨piece, e⟩
    simp only at hnil
    subst hnil
    cases e <;> simp [Ret.observed, Ret.stored, returns, finish, rvOf, eofBreak, breakRv]
  · have hpos : 0 < p.1.length := List.length_pos_iff.mpr hnil
    rw [Ret.observed, stored_returns hp fun _ => eofBreak_terminates (by omega)]
    rcases p with ⟨piece, e⟩
    have hcount : (1 : ℤ) + piece.length - 1 = piece.length := by omega
    cases e with
    | stop => simp [returns, finish, rvOf, hcount]
    | full => simp [returns, finish, rvOf, Int.add_comm]
    | eof =>
      simp only at hnil
      simp [returns, finish, rvOf, eofBreak, breakRv, hnil, Int.add_comm]

/-- The two values differ exactly on a piece cut short by the end of file. -/
theorem rvOf_eq_iff (p : List UInt8 × End) : rvOf breakRv p = rvOf (fun k => k) p ↔ ¬ Ragged p := by
  rcases p with ⟨piece, _ | _ | _⟩
  · simp [rvOf, Ragged]
  · simp [rvOf, Ragged]
  · by_cases hnil : piece = []
    · simp [rvOf, breakRv, Ragged, hnil]
    · have hne : (piece.length : ℤ) + 1 ≠ piece.length := by omega
      simp [rvOf, breakRv, Ragged, hnil, hne]

theorem map_rvOf_eq_iff (ps : List (List UInt8 × End)) :
    (ps.map fun p => (rvOf breakRv p, p.1)) = (ps.map fun p => (rvOf (fun k => k) p, p.1)) ↔
      ∀ p ∈ ps, ¬ Ragged p := by
  rw [List.map_inj_left]
  refine forall₂_congr fun p _ => ?_
  rw [Prod.mk.injEq, and_iff_left rfl, rvOf_eq_iff]

/-- The calls of a version that returns the count. -/
theorem observe_of_count {σ : Type*} {readline : Call → σ → Ret × σ} {V : Call → Prop}
    {I : σ → Prop} {view : σ → List UInt8} (h : Meets readline eofCount V I view) {cs : List Call}
    (hcs : ∀ c ∈ cs, c.Valid) (hV : ∀ c ∈ cs, V c) (s : σ) (hs : I s) :
    observe readline cs s
      = (cuts isNewline (limits cs) (view s)).map fun p => (rvOf (fun k => k) p, p.1) := by
  obtain ⟨s', hcalls, -⟩ := h.calls cs s hV hs
  rw [observe, hcalls, map_returns (fun _ _ => observed_eofCount) cs _ hcs, zipWith_cuts]

/-- The calls of a version that breaks out of the loop. -/
theorem observe_of_break {σ : Type*} {readline : Call → σ → Ret × σ} {V : Call → Prop}
    {I : σ → Prop} {view : σ → List UInt8} (h : Meets readline eofBreak V I view) {cs : List Call}
    (hcs : ∀ c ∈ cs, c.Valid) (hV : ∀ c ∈ cs, V c) (s : σ) (hs : I s) :
    observe readline cs s
      = (cuts isNewline (limits cs) (view s)).map fun p => (rvOf breakRv p, p.1) := by
  obtain ⟨s', hcalls, -⟩ := h.calls cs s hV hs
  rw [observe, hcalls, map_returns (fun _ _ => observed_eofBreak) cs _ hcs, zipWith_cuts]

/-! ### Agreement -/

/-- Repeated calls with one limit. -/
def repeated (maxlen : ℕ) (bufs : List (List UInt8)) : List Call := bufs.map fun b => ⟨b, maxlen⟩

theorem limits_repeated (maxlen : ℕ) (bufs : List (List UInt8)) :
    limits (repeated maxlen bufs) = List.replicate bufs.length (maxlen - 1) := by
  rw [limits, repeated, List.map_map, ← List.map_const']
  rfl

theorem maxlen_of_mem_repeated {maxlen : ℕ} {bufs : List (List UInt8)} :
    ∀ c ∈ repeated maxlen bufs, c.maxlen = maxlen := by
  intro c hc
  obtain ⟨b, -, rfl⟩ := List.mem_map.mp hc
  rfl

theorem valid_of_mem_repeated {maxlen : ℕ} (hmax : 2 ≤ maxlen) {bufs : List (List UInt8)}
    (hbufs : ∀ b ∈ bufs, maxlen ≤ b.length) : ∀ c ∈ repeated maxlen bufs, c.Valid := by
  intro c hc
  obtain ⟨b, hb, rfl⟩ := List.mem_map.mp hc
  exact ⟨hmax, hbufs b hb⟩

/-- A schedule of chunks without a failure. -/
theorem carries_chunks (P : Errno → Prop) (stream : List UInt8) (ks : List ℕ) :
    Source.Carries P stream (.start stream (ks.map .chunk)) where
  fails := by
    intro e he
    obtain ⟨k, -, hk⟩ := List.mem_map.mp he
    cases hk
  stream_eq := rfl

section Agreement

variable (stream : List UInt8) {maxlen : ℕ} (hmax : 2 ≤ maxlen) (ks : List ℕ)
  {bufs : List (List UInt8)} (hbufs : ∀ b ∈ bufs, maxlen ≤ b.length)

/-- What repeated calls return when the end of file is reported as `short` says. -/
def results (short : ℕ → ℤ) (maxlen calls : ℕ) : List (ℤ × List UInt8) :=
  (cuts isNewline (List.replicate calls (maxlen - 1)) stream).map fun p => (rvOf short p, p.1)

include hmax hbufs

theorem observe_readline :
    observe readline (repeated maxlen bufs) (Rline.init, .start stream (ks.map .chunk))
      = results stream (fun k => k) maxlen bufs.length := by
  rw [results, ← limits_repeated maxlen bufs]
  exact observe_of_count ((myRead_reads stream).meets eofCount fun _ => True)
    (valid_of_mem_repeated hmax hbufs) (fun _ _ => trivial) (Rline.init, _)
    (carries_chunks _ stream ks)

theorem observe_threads {tid : ℕ} {tsd : Threads.Tsd} (htsd : tsd tid = none) :
    observe (Threads.readline tid) (repeated maxlen bufs) (tsd, .start stream (ks.map .chunk))
      = results stream (fun k => k) maxlen bufs.length := by
  have hview : Threads.view tid (tsd, .start stream (ks.map .chunk)) = stream := by
    simp only [Threads.view, htsd]
    rfl
  have h := observe_of_count (Threads.readline_meets tid stream fun _ => True)
    (valid_of_mem_repeated hmax hbufs) (fun _ _ => trivial) (tsd, .start stream (ks.map .chunk))
    (carries_chunks _ stream ks)
  rw [h, hview, limits_repeated, results]

theorem observe_server :
    observe Server.readline (repeated maxlen bufs) (.start stream (ks.map .chunk))
      = results stream breakRv maxlen bufs.length := by
  rw [results, ← limits_repeated maxlen bufs]
  exact observe_of_break ((Server.getc_reads stream).meets eofBreak fun _ => True)
    (valid_of_mem_repeated hmax hbufs) (fun _ _ => trivial) _ (carries_chunks _ stream ks)

theorem observe_readlineR (rptr : RlineR) :
    observe (fun c => readlineR c.line) (repeated maxlen bufs)
        (readlineRinit maxlen rptr, .start stream (ks.map .chunk))
      = results stream breakRv maxlen bufs.length := by
  rw [results, ← limits_repeated maxlen bufs]
  exact observe_of_break (readlineR_meets maxlen stream) (valid_of_mem_repeated hmax hbufs)
    maxlen_of_mem_repeated (readlineRinit maxlen rptr, _) ⟨rfl, carries_chunks _ stream ks⟩

end Agreement

/-- **When the versions agree.**  Each reads the same stream, in chunks of its own,
by repeated calls with one limit.  All calls give the same return values and store
the same bytes exactly when the number of bytes after the last newline is a
multiple of `maxlen - 1`, so that the end of file never cuts a piece short. -/
theorem readlines_agree_iff (stream : List UInt8) (maxlen : ℕ) (hmax : 2 ≤ maxlen)
    (ks₁ ks₂ ks₃ ks₄ : List ℕ) (tid : ℕ) (tsd : Threads.Tsd) (htsd : tsd tid = none)
    (rptr : RlineR) :
    (∀ bufs : List (List UInt8), (∀ b ∈ bufs, maxlen ≤ b.length) →
      let cs := repeated maxlen bufs
      let lib := observe readline cs (Rline.init, .start stream (ks₁.map .chunk))
      observe (Threads.readline tid) cs (tsd, .start stream (ks₂.map .chunk)) = lib ∧
      observe Server.readline cs (.start stream (ks₃.map .chunk)) = lib ∧
      observe (fun c => readlineR c.line) cs
        (readlineRinit maxlen rptr, .start stream (ks₄.map .chunk)) = lib) ↔
    (stream.rtakeWhile fun c => !isNewline c).length % (maxlen - 1) = 0 := by
  have hragged : (∀ m, results stream breakRv maxlen m = results stream (fun k => k) maxlen m) ↔
      (stream.rtakeWhile fun c => !isNewline c).length % (maxlen - 1) = 0 := by
    have hk : 0 < maxlen - 1 := by omega
    refine Iff.trans (forall_congr' fun m => ?_) (forall_not_ragged_iff hk stream)
    exact map_rvOf_eq_iff _
  rw [← hragged]
  constructor
  · intro h m
    have hbufs : ∀ b ∈ List.replicate m (List.replicate maxlen (0 : UInt8)), maxlen ≤ b.length := by
      intro b hb
      rw [List.eq_of_mem_replicate hb, List.length_replicate]
    have hagree := (h _ hbufs).2.1
    rw [observe_server stream hmax ks₃ hbufs, observe_readline stream hmax ks₁ hbufs,
      List.length_replicate] at hagree
    exact hagree
  · intro h bufs hbufs
    simp only [observe_readline stream hmax ks₁ hbufs, observe_threads stream hmax ks₂ hbufs htsd,
      observe_server stream hmax ks₃ hbufs, observe_readlineR stream hmax ks₄ hbufs rptr, h,
      and_self]

/-- A stream that ends with a newline, read in different chunks. -/
theorem readlines_agree_iff_terminated :
    observe Server.readline (repeated 4 [[1, 2, 3, 4], [1, 2, 3, 4], [1, 2, 3, 4]])
        (.start [97, 98, 10, 99, 10] [])
      = observe readline (repeated 4 [[1, 2, 3, 4], [1, 2, 3, 4], [1, 2, 3, 4]])
        (Rline.init, .start [97, 98, 10, 99, 10] [.chunk 3]) :=
  ((readlines_agree_iff [97, 98, 10, 99, 10] 4 (by decide) [3] [] [] [] 0 (fun _ => none) rfl
    ⟨0, Rline.init⟩).mpr (by decide) [[1, 2, 3, 4], [1, 2, 3, 4], [1, 2, 3, 4]] (by decide)).2.1

/-- **A last line without a newline tells the versions apart**: the stream is `"a"`.
All store the one byte; the library's version returns `1`, the servers' return `2`. -/
theorem readlines_disagree :
    observe readline (repeated 4 [[0, 0, 0, 0]]) (Rline.init, .start [97] []) = [(1, [97])] ∧
      observe (Threads.readline 0) (repeated 4 [[0, 0, 0, 0]]) (fun _ => none, .start [97] [])
        = [(1, [97])] ∧
      observe Server.readline (repeated 4 [[0, 0, 0, 0]]) (.start [97] []) = [(2, [97])] ∧
      observe (fun c => readlineR c.line) (repeated 4 [[0, 0, 0, 0]])
        (readlineRinit 4 ⟨0, Rline.init⟩, .start [97] []) = [(2, [97])] := by
  decide

end TcpIp.Readline
