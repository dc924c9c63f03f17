import TcpIp.Readline.Loop

/-!
# The buffered `readline` of the library

`lib/readline.c` keeps a static buffer between its calls: `my_read` takes bytes
out of it and refills it with one `read` of `MAXLINE` bytes when it is empty.
This module models `my_read`, `readline` and `readlinebuf` and proves the law of
the byte stream: whatever the chunks in which the kernel hands the stream over,
the calls cut it into the same pieces, and no byte is lost between the pieces
and the buffer.

## Main definitions

* `Rline` — the static buffer; the unread bytes lie inside it.
* `myRead`, `readline`, `readlinebuf` — the functions of the source.

## Main results

* `myRead_reads` — `my_read` delivers the unread bytes of the buffer, then those
  the kernel still has.
* `readline_stream` — the law of the byte stream.
-/

namespace TcpIp.Readline

open Cut

/-- `MAXLINE`, the size of the buffer. -/
def maxLine : ℕ := 4096

/-- `read_cnt`, `read_ptr` (as an index) and `read_buf`.  The unread bytes lie
inside the buffer. -/
structure Rline where
  cnt : ℤ
  ptr : ℕ
  buf : List UInt8
  inside : ptr + cnt.toNat ≤ buf.length
  deriving DecidableEq, Repr

namespace Rline

/-- The static variables at the start of the program, and a structure fresh from
`calloc`: all zero. -/
def init : Rline := ⟨0, 0, List.replicate maxLine 0, by simp⟩

/-- The bytes read from the kernel and not taken out of the buffer yet. -/
def unread (r : Rline) : List UInt8 := (r.buf.drop r.ptr).take r.cnt.toNat

/-- `read_cnt--; *ptr = *read_ptr++; return(1);` -/
def next (r : Rline) (h : 0 < r.cnt) : Rc × Rline :=
  have hptr : r.ptr < r.buf.length := by have := r.inside; omega
  (.byte (r.buf.get ⟨r.ptr, hptr⟩),
    { r with cnt := r.cnt - 1, ptr := r.ptr + 1, inside := by have := r.inside; omega })

/-- `read` stored `bs` at the start of the buffer and returned their number. -/
def load (r : Rline) (bs : List UInt8) : Rline :=
  ⟨bs.length, 0, bs ++ r.buf.drop bs.length, by simp⟩

theorem inside_of_nonpos (r : Rline) {cnt : ℤ} (h : cnt ≤ 0) :
    r.ptr + cnt.toNat ≤ r.buf.length := by
  have hinside := r.inside
  omega

theorem load_cnt_pos (r : Rline) (b : UInt8) (bs : List UInt8) : 0 < (r.load (b :: bs)).cnt := by
  simp only [load, List.length_cons]
  omega

/-- `my_read` once `read` has come back: its result goes to `read_cnt`. -/
def fill (r : Rline) : Except Errno (List UInt8) → Rc × Rline
  | .error _ => (.error, { r with cnt := -1, inside := r.inside_of_nonpos (by decide) })
  | .ok [] => (.eof, { r with cnt := 0, inside := r.inside_of_nonpos (by decide) })
  | .ok (b :: bs) => (r.load (b :: bs)).next (r.load_cnt_pos b bs)

/-- `next` takes the first of the unread bytes. -/
theorem next_unread (r : Rline) (h : 0 < r.cnt) :
    ∃ c r', r.next h = (.byte c, r') ∧ r.unread = c :: r'.unread := by
  refine ⟨_, _, rfl, ?_⟩
  have hptr : r.ptr < r.buf.length := by have := r.inside; omega
  obtain ⟨k, hk⟩ : ∃ k, r.cnt.toNat = k + 1 := ⟨r.cnt.toNat - 1, by omega⟩
  have hk' : (r.cnt - 1).toNat = k := by omega
  rw [unread, unread, hk', hk, List.drop_eq_getElem_cons hptr, List.take_succ_cons]
  rfl

@[simp] theorem load_unread (r : Rline) (bs : List UInt8) : (r.load bs).unread = bs := by
  simp [load, unread]

theorem unread_of_cnt_nonpos {r : Rline} (h : r.cnt ≤ 0) : r.unread = [] := by
  rw [unread, Int.toNat_of_nonpos h, List.take_zero]

@[simp] theorem fill_error_unread (r : Rline) (e : Errno) : (r.fill (.error e)).2.unread = [] :=
  rfl

theorem fill_nil (r : Rline) : ∃ r', r.fill (.ok []) = (.eof, r') ∧ r'.unread = [] :=
  ⟨_, rfl, rfl⟩

theorem fill_cons (r : Rline) (b : UInt8) (bs : List UInt8) :
    ∃ r', r.fill (.ok (b :: bs)) = (.byte b, r') ∧ r'.unread = bs := by
  obtain ⟨c, r', hnext, hunread⟩ := (r.load (b :: bs)).next_unread (r.load_cnt_pos b bs)
  rw [load_unread, List.cons.injEq] at hunread
  obtain ⟨rfl, hbs⟩ := hunread
  exact ⟨r', hnext, hbs.symm⟩

end Rline

/-- The part of `my_read` at the label `again`: `read`, once more as long as it is
interrupted. -/
def readAgain (pending taken : List UInt8) : List Sched → Except Errno (List UInt8) × Source
  | .fail .eintr :: sched => readAgain pending taken sched
  | sched => (Source.mk pending sched taken).read maxLine

/-- `my_read`. -/
def myRead (s : Rline × Source) : Rc × Rline × Source :=
  if h : s.1.cnt ≤ 0 then
    let (res, src) := readAgain s.2.pending s.2.taken s.2.sched
    let (rc, r) := s.1.fill res
    (rc, r, src)
  else
    let (rc, r) := s.1.next (by omega)
    (rc, r, s.2)

/-- `readline(fd, vptr, maxlen)` of `lib/readline.c`. -/
def readline (c : Call) (s : Rline × Source) : Ret × Rline × Source :=
  readWith myRead eofCount c s

/-- `readlinebuf`: the pointer stored through `vptrptr`, if any, and `read_cnt`. -/
def readlinebuf (r : Rline) : Option ℕ × ℤ := (if r.cnt = 0 then none else some r.ptr, r.cnt)

/-- The bytes `readlinebuf` exposes: as many as it returns, from the pointer it stores. -/
def exposed (r : Rline) : List UInt8 :=
  match readlinebuf r with
  | (none, _) => []
  | (some p, cnt) => (r.buf.drop p).take cnt.toNat

@[simp] theorem exposed_eq_unread (r : Rline) : exposed r = r.unread := by
  by_cases h : r.cnt = 0
  · simp [exposed, readlinebuf, h, Rline.unread]
  · simp [exposed, readlinebuf, h, Rline.unread]

/-! ### `my_read` delivers the stream -/

/-- What a reader has not got yet: the unread bytes of the buffer, then those the
kernel holds. -/
def view (s : Rline × Source) : List UInt8 := s.1.unread ++ s.2.pending

/-- A descriptor that carries `stream` and fails with `EINTR` only. -/
abbrev Interrupted : List UInt8 → Source → Prop := Source.Carries (· = .eintr)

theorem maxLine_pos : 0 < maxLine := by decide

/-- The retries end, and with what a `read` that does not fail returns. -/
theorem readAgain_spec (pending taken stream : List UInt8) : ∀ (sched : List Sched),
    Interrupted stream ⟨pending, sched, taken⟩ →
    ∃ k, 0 < k ∧ ∃ src, readAgain pending taken sched = (.ok (pending.take k), src) ∧
      src.pending = pending.drop k ∧ Interrupted stream src := by
  intro sched
  induction sched with
  | nil =>
    intro hsrc
    obtain ⟨k, hk, -, hread⟩ := hsrc.read_ok maxLine_pos (by intro e sched; simp)
    exact ⟨k, hk, hread⟩
  | cons d sched ih =>
    intro hsrc
    cases d with
    | chunk m =>
      obtain ⟨k, hk, -, hread⟩ := hsrc.read_ok maxLine_pos (by intro e sched; simp)
      exact ⟨k, hk, hread⟩
    | fail e =>
      obtain rfl : e = .eintr := hsrc.fails e List.mem_cons_self
      exact ih ⟨fun e he => hsrc.fails e (List.mem_cons_of_mem _ he), hsrc.stream_eq⟩

/-- **`my_read` delivers the unread bytes of the buffer, then those the kernel
still has.** -/
theorem myRead_reads (stream : List UInt8) :
    Reads myRead (fun s => Interrupted stream s.2) view where
  byte := by
    rintro ⟨r, src⟩ c t hs hview
    by_cases hcnt : r.cnt ≤ 0
    · -- the buffer is empty: the byte comes from the kernel
      obtain ⟨k, hk, src', hread, hpending, hs'⟩ :=
        readAgain_spec src.pending src.taken stream src.sched hs
      have hsrc : src.pending = c :: t := by
        simpa [view, Rline.unread_of_cnt_nonpos hcnt] using hview
      obtain ⟨j, rfl⟩ := Nat.exists_eq_succ_of_ne_zero (Nat.pos_iff_ne_zero.mp hk)
      rw [hsrc, List.take_succ_cons] at hread
      rw [hsrc, List.drop_succ_cons] at hpending
      obtain ⟨r', hfill, hunread⟩ := r.fill_cons c (t.take j)
      refine ⟨(r', src'), ?_, hs', ?_⟩
      · simp [myRead, hcnt, hsrc, hread, hfill]
      · simp [view, hunread, hpending]
    · obtain ⟨c', r', hnext, hunread⟩ := r.next_unread (by omega)
      rw [view, hunread, List.cons_append, List.cons.injEq] at hview
      obtain ⟨rfl, ht⟩ := hview
      exact ⟨(r', src), by simp [myRead, hcnt, hnext], hs, ht⟩
  eof := by
    rintro ⟨r, src⟩ hs hview
    obtain ⟨hunread, hsrc⟩ := List.append_eq_nil_iff.mp hview
    have hcnt : r.cnt ≤ 0 := by
      by_contra hpos
      obtain ⟨c', r', -, hcons⟩ := r.next_unread (by omega)
      rw [hunread] at hcons
      cases hcons
    obtain ⟨k, hk, src', hread, hpending, hs'⟩ :=
      readAgain_spec src.pending src.taken stream src.sched hs
    simp only at hsrc
    rw [hsrc, List.take_nil] at hread
    rw [hsrc, List.drop_nil] at hpending
    obtain ⟨r', hfill, hunread'⟩ := r.fill_nil
    refine ⟨(r', src'), ?_, hs', ?_⟩
    · simp [myRead, hcnt, hsrc, hread, hfill]
    · simp [view, hunread', hpending]

/-! ### The law of the byte stream -/

/-- The pieces a stream is cut into by calls with the given limits: each goes up
to and including the first newline, has `maxlen - 1` bytes at most, and no more
than there are. -/
def pieces : List ℕ → List UInt8 → List (List UInt8)
  | [], _ => []
  | maxlen :: ms, s =>
    let piece := s.take (min (maxlen - 1) (s.findIdx isNewline + 1))
    piece :: pieces ms (s.drop piece.length)

theorem pieces_eq_cuts : ∀ (cs : List Call) (s : List UInt8),
    pieces (cs.map Call.maxlen) s = (cuts isNewline (limits cs) s).map Prod.fst := by
  intro cs
  induction cs with
  | nil => intro s; rfl
  | cons c cs ih =>
    intro s
    rw [List.map_cons, pieces, ← cut_fst, ih]
    rfl

/-- The calls of a program that starts to read `stream`: what they return, and
that the pieces and what has not been got yet make up the stream. -/
theorem calls_readline (stream : List UInt8) {sched : List Sched}
    (hsched : ∀ e, .fail e ∈ sched → e = .eintr) (cs : List Call) :
    ∃ s', calls readline cs (Rline.init, Source.start stream sched)
        = (List.zipWith (returns eofCount) cs (cuts isNewline (limits cs) stream), s') ∧
      s'.2.stream = stream ∧ (pieces (cs.map Call.maxlen) stream).flatten ++ view s' = stream := by
  obtain ⟨s', hcalls, hs', hview⟩ := ((myRead_reads stream).meets eofCount fun _ => True).calls
    cs (Rline.init, Source.start stream sched) (fun _ _ => trivial) ⟨hsched, rfl⟩
  have hstart : view (Rline.init, Source.start stream sched) = stream := rfl
  rw [hstart] at hcalls hview
  refine ⟨s', hcalls, hs'.stream_eq, ?_⟩
  rw [pieces_eq_cuts, hview, flatten_cuts_append]

/-- **The law of the byte stream.**  A program reads one descriptor with calls of
`readline` only.  Each call stores the next piece of the stream and a zero behind
it; together the pieces are an initial part of the stream; another schedule of
chunks and interruptions gives the same results; and the pieces, followed by the
bytes `readlinebuf` exposes, are all the kernel has handed over. -/
theorem readline_stream (stream : List UInt8) (sched : List Sched)
    (hsched : ∀ e, .fail e ∈ sched → e = .eintr) (cs : List Call) (hcs : ∀ c ∈ cs, c.Valid) :
    let out := calls readline cs (Rline.init, Source.start stream sched)
    let stored := out.1.map Ret.stored
    stored = pieces (cs.map Call.maxlen) stream ∧
    out.1.map Ret.line
      = List.zipWith (fun c p => p ++ 0 :: c.line.drop (p.length + 1)) cs stored ∧
    stored.flatten <+: stream ∧
    (∀ sched', (∀ e, .fail e ∈ sched' → e = .eintr) →
      (calls readline cs (Rline.init, Source.start stream sched')).1 = out.1) ∧
    stored.flatten ++ exposed out.2.1 = out.2.2.taken := by
  obtain ⟨s', hcalls, hstream, happend⟩ := calls_readline stream hsched cs
  intro out stored
  have hout : out = (List.zipWith (returns eofCount) cs (cuts isNewline (limits cs) stream), s') :=
    hcalls
  have hstored : stored = pieces (cs.map Call.maxlen) stream := by
    rw [pieces_eq_cuts, ← zipWith_cuts, ← map_returns _ cs stream hcs]
    · exact congrArg (fun o => o.1.map Ret.stored) hout
    · intro c p hp
      exact stored_returns hp fun _ => eofCount_terminates _
  refine ⟨hstored, ?_, ?_, ?_, ?_⟩
  · rw [hstored, pieces_eq_cuts, List.zipWith_map_right, ← map_returns _ cs stream hcs, hout]
    intro c p hp
    exact (line_returns hp fun _ => eofCount_terminates _).2
  · rw [hstored]
    exact ⟨view s', happend⟩
  · intro sched' hsched'
    obtain ⟨s'', hcalls', -⟩ := calls_readline stream hsched' cs
    rw [hcalls', hout]
  · -- what the kernel still has is behind both
    rw [hstored, hout, exposed_eq_unread]
    have htaken : (pieces (cs.map Call.maxlen) stream).flatten ++ s'.1.unread ++ s'.2.pending
        = s'.2.taken ++ s'.2.pending := by
      rw [List.append_assoc]
      exact happend.trans hstream.symm
    exact List.append_cancel_right htaken

/-- Two lines read with interruptions in between, the second one too long for its limit. -/
theorem readline_stream_interrupted :
    (calls readline [⟨List.replicate 8 7, 8⟩, ⟨List.replicate 8 7, 3⟩]
      (Rline.init, Source.start [97, 10, 98, 99, 100]
        [.fail .eintr, .chunk 0, .fail .eintr, .chunk 2])).1.map Ret.stored
      = [[97, 10], [98, 99]] := by
  have h := readline_stream [97, 10, 98, 99, 100] [.fail .eintr, .chunk 0, .fail .eintr, .chunk 2]
    (by simp) [⟨List.replicate 8 7, 8⟩, ⟨List.replicate 8 7, 3⟩]
    (by simpa using ⟨⟨by decide, by decide⟩, ⟨by decide, by decide⟩⟩)
  exact h.1.trans (by decide)

end TcpIp.Readline
