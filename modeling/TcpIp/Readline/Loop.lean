import TcpIp.Kernel
import TcpIp.Lib.Cut

/-!
# The line-reading loop

The library and the servers hold four hand-copied versions of `readline`.  All
of them run one loop over a function that gets the next byte; they differ in
that function and in what they do at the end of file.  `readLoop` is the loop,
with both as parameters.

The caller's buffer is a list of bytes that the loop writes to, `ptr` the number
of bytes stored so far and `n` the loop counter, which starts at `1`.  The
counters are unbounded integers here: the `int` of `readline_r` overflows in a
line of `2 ^ 31 - 1` bytes only.

## Main definitions

* `Rc`, `Ret` — what getting a byte and what reading a line return.
* `body`, `readLoop` — the loop body and the loop.
* `Reads` — what a function that gets bytes has to do: deliver a view of the
  remaining stream one byte at a time.

## Main results

* `readLoop_spec` — over such a function the loop cuts the next piece off the view.
* `Meets.calls` — and a sequence of calls cuts it into pieces.
* `line_returns` — what a call leaves in the caller's buffer.
-/

namespace TcpIp.Readline

open Cut

/-- The result of getting one byte. -/
inductive Rc where
  /-- `1`: the byte `c` was stored. -/
  | byte (c : UInt8)
  /-- `0`: end of file. -/
  | eof
  /-- `-1`: an error. -/
  | error
  deriving DecidableEq, Repr

/-- What a call of a `readline` leaves behind: its return value, the number of
bytes stored in the caller's buffer, and the buffer. -/
structure Ret where
  rv : ℤ
  ptr : ℕ
  line : List UInt8
  deriving DecidableEq, Repr

/-- The bytes a call stored, without the terminating zero. -/
def Ret.stored (r : Ret) : List UInt8 := r.line.take r.ptr

/-- The byte `'\n'`. -/
def newline : UInt8 := 10

/-- Whether a byte ends a line. -/
def isNewline (c : UInt8) : Bool := c == newline

/-- What a version of `readline` does at the end of file, given the loop counter,
the number of bytes stored and the buffer. -/
abbrev AtEof := ℕ → ℕ → List UInt8 → Ret

/-- `*ptr = 0; return(n - 1);` — the number of bytes stored. -/
def eofCount : AtEof := fun n ptr line => ⟨n - 1, ptr, line.set ptr 0⟩

/-- `if (n == 1) return(0); else break;` — the loop counter, as after a newline. -/
def eofBreak : AtEof := fun n ptr line => if n = 1 then ⟨0, ptr, line⟩ else ⟨n, ptr, line.set ptr 0⟩

/-- The body of the loop once a byte has been asked for: the call returns, or
the loop goes on with the byte stored. -/
def body (atEof : AtEof) (n ptr : ℕ) (line : List UInt8) : Rc → Ret ⊕ List UInt8
  | .byte c =>
    if isNewline c then .inl ⟨n, ptr + 1, (line.set ptr c).set (ptr + 1) 0⟩
    else .inr (line.set ptr c)
  | .eof => .inl (atEof n ptr line)
  | .error => .inl ⟨-1, ptr, line⟩

variable {σ : Type*}

/-- The loop `for (n = ..; n < maxlen; n++)` with `k = maxlen - n` rounds to go. -/
def readLoop (getc : σ → Rc × σ) (atEof : AtEof) : ℕ → ℕ → ℕ → List UInt8 → σ → Ret × σ
  | 0, n, ptr, line, s => (⟨n, ptr, line.set ptr 0⟩, s)
  | k + 1, n, ptr, line, s =>
    match body atEof n ptr line (getc s).1 with
    | .inl r => (r, (getc s).2)
    | .inr line => readLoop getc atEof k (n + 1) (ptr + 1) line (getc s).2

/-- One call: the caller's buffer and the limit passed with it. -/
structure Call where
  line : List UInt8
  maxlen : ℕ
  deriving DecidableEq, Repr

/-- Room for a byte and the terminating zero, in a buffer as large as stated. -/
structure Call.Valid (c : Call) : Prop where
  two_le : 2 ≤ c.maxlen
  fits : c.maxlen ≤ c.line.length

/-- One call of a `readline` with the given parts. -/
def readWith (getc : σ → Rc × σ) (atEof : AtEof) (c : Call) (s : σ) : Ret × σ :=
  readLoop getc atEof (c.maxlen - 1) 1 0 c.line s

/-- A sequence of calls. -/
def calls (readline : Call → σ → Ret × σ) : List Call → σ → List Ret × σ
  | [], s => ([], s)
  | c :: cs, s =>
    ((readline c s).1 :: (calls readline cs (readline c s).2).1,
      (calls readline cs (readline c s).2).2)

/-! ### Getting bytes -/

/-- From a state that meets `I`, `getc` delivers the bytes of `view` in order, then
the end of file for ever. -/
structure Reads (getc : σ → Rc × σ) (I : σ → Prop) (view : σ → List UInt8) : Prop where
  byte : ∀ {s c t}, I s → view s = c :: t → ∃ s', getc s = (.byte c, s') ∧ I s' ∧ view s' = t
  eof : ∀ {s}, I s → view s = [] → ∃ s', getc s = (.eof, s') ∧ I s' ∧ view s' = []

/-! ### One call -/

/-- Store bytes one after the other, from position `ptr` on. -/
def put (line : List UInt8) (ptr : ℕ) : List UInt8 → List UInt8
  | [] => line
  | c :: t => put (line.set ptr c) (ptr + 1) t

/-- What the loop returns when it has `n` and `ptr` at the start and then gets a
piece that ends as stated. -/
def finish (atEof : AtEof) (n ptr : ℕ) (line piece : List UInt8) : End → Ret
  | .stop => ⟨n + piece.length - 1, ptr + piece.length,
      (put line ptr piece).set (ptr + piece.length) 0⟩
  | .full => ⟨n + piece.length, ptr + piece.length,
      (put line ptr piece).set (ptr + piece.length) 0⟩
  | .eof => atEof (n + piece.length) (ptr + piece.length) (put line ptr piece)

/-- A byte stored in front of a piece. -/
theorem finish_cons (atEof : AtEof) (n ptr : ℕ) (line : List UInt8) (c : UInt8)
    (piece : List UInt8) (e : End) :
    finish atEof n ptr line (c :: piece) e
      = finish atEof (n + 1) (ptr + 1) (line.set ptr c) piece e := by
  have hlen (m : ℕ) : m + (c :: piece).length = m + 1 + piece.length := by
    rw [List.length_cons]
    omega
  cases e with
  | stop =>
    have hrv : (n : ℤ) + ((c :: piece).length : ℤ) - 1 = ((n + 1 : ℕ) : ℤ) + piece.length - 1 := by
      rw [List.length_cons]
      omega
    simp only [finish, hlen, hrv, put]
  | full =>
    have hrv : (n : ℤ) + ((c :: piece).length : ℤ) = ((n + 1 : ℕ) : ℤ) + piece.length := by
      rw [List.length_cons]
      omega
    simp only [finish, hlen, hrv, put]
  | eof => simp only [finish, hlen, put]

/-- **The loop cuts the next piece off the view.**  The induction is on the
rounds to go; each round consumes one byte of the view. -/
theorem readLoop_spec {getc : σ → Rc × σ} {I : σ → Prop} {view : σ → List UInt8}
    (hgetc : Reads getc I view) (atEof : AtEof) : ∀ (k n ptr : ℕ) (line : List UInt8) (s : σ), I s →
    ∃ s', readLoop getc atEof k n ptr line s
        = (finish atEof n ptr line (cut isNewline k (view s)).1 (cut isNewline k (view s)).2, s') ∧
      I s' ∧ view s' = (view s).drop (cut isNewline k (view s)).1.length := by
  intro k
  induction k with
  | zero =>
    intro n ptr line s hs
    exact ⟨s, by simp [readLoop, finish, put], hs, rfl⟩
  | succ k ih =>
    intro n ptr line s hs
    cases hview : view s with
    | nil =>
      obtain ⟨s', hget, hs', hview'⟩ := hgetc.eof hs hview
      exact ⟨s', by simp [readLoop, hget, body, finish, put], hs', hview'⟩
    | cons c t =>
      obtain ⟨s', hget, hs', hview'⟩ := hgetc.byte hs hview
      rw [cut_succ_cons]
      cases hc : isNewline c with
      | true =>
        -- the newline is stored and ends the piece
        refine ⟨s', ?_, hs', by simpa using hview'⟩
        simp [readLoop, hget, body, hc, finish, put]
      | false =>
        obtain ⟨s'', hloop, hs'', hview''⟩ := ih (n + 1) (ptr + 1) (line.set ptr c) s' hs'
        rw [hview'] at hloop hview''
        refine ⟨s'', ?_, hs'', by simpa using hview''⟩
        rw [if_neg (by simp), finish_cons, ← hloop]
        simp [readLoop, hget, body, hc]

/-- What a call returns when `v` is left of the stream. -/
def returns (atEof : AtEof) (c : Call) (p : List UInt8 × End) : Ret :=
  finish atEof 1 0 c.line p.1 p.2

/-- A `readline` that, in the calls `V` allows, cuts the next piece off the view and
reports it as `atEof` says. -/
def Meets (readline : Call → σ → Ret × σ) (atEof : AtEof) (V : Call → Prop) (I : σ → Prop)
    (view : σ → List UInt8) : Prop :=
  ∀ c s, V c → I s → ∃ s',
    readline c s = (returns atEof c (cut isNewline (c.maxlen - 1) (view s)), s') ∧
    I s' ∧ view s' = (view s).drop (cut isNewline (c.maxlen - 1) (view s)).1.length

theorem Reads.meets {getc : σ → Rc × σ} {I : σ → Prop} {view : σ → List UInt8}
    (hgetc : Reads getc I view) (atEof : AtEof) (V : Call → Prop) :
    Meets (readWith getc atEof) atEof V I view := by
  intro c s _ hs
  exact readLoop_spec hgetc atEof (c.maxlen - 1) 1 0 c.line s hs

/-! ### Sequences of calls -/

/-- The limits of a sequence of calls on what each may store. -/
def limits (cs : List Call) : List ℕ := cs.map fun c => c.maxlen - 1

/-- **A sequence of calls cuts the view into pieces.** -/
theorem Meets.calls {readline : Call → σ → Ret × σ} {atEof : AtEof} {V : Call → Prop}
    {I : σ → Prop} {view : σ → List UInt8} (h : Meets readline atEof V I view) :
    ∀ (cs : List Call) (s : σ), (∀ c ∈ cs, V c) → I s →
    ∃ s', calls readline cs s
        = (List.zipWith (returns atEof) cs (cuts isNewline (limits cs) (view s)), s') ∧
      I s' ∧ view s' = rest isNewline (limits cs) (view s) := by
  intro cs
  induction cs with
  | nil => intro s _ hs; exact ⟨s, rfl, hs, rfl⟩
  | cons c cs ih =>
    intro s hV hs
    obtain ⟨s', hc, hs', hview'⟩ := h c s (hV c List.mem_cons_self) hs
    obtain ⟨s'', hcs, hs'', hview''⟩ := ih s' (fun c hc => hV c (List.mem_cons_of_mem _ hc)) hs'
    rw [hview'] at hcs hview''
    refine ⟨s'', ?_, hs'', hview''⟩
    simp only [Readline.calls, hc, hcs]
    rfl

/-! ### The caller's buffer -/

/-- A byte stored behind the first `ptr` ones. -/
theorem take_store {line : List UInt8} {ptr : ℕ} (h : ptr < line.length) (c : UInt8) :
    (line.set ptr c).take (ptr + 1) = line.take ptr ++ [c] := by
  rw [List.take_set, List.take_add_one, List.getElem?_eq_getElem h, Option.toList_some,
    List.set_append_right _ _ (by rw [List.length_take]; omega), List.length_take,
    Nat.min_eq_left (by omega), Nat.sub_self, List.set_cons_zero]

theorem put_eq : ∀ (piece line : List UInt8) (ptr : ℕ), ptr + piece.length ≤ line.length →
    put line ptr piece = line.take ptr ++ piece ++ line.drop (ptr + piece.length) := by
  intro piece
  induction piece with
  | nil => intro line ptr h; simp [put]
  | cons c t ih =>
    intro line ptr h
    rw [List.length_cons] at h
    rw [put, ih _ _ (by rw [List.length_set]; omega), take_store (by omega),
      List.drop_set_of_lt (by omega), List.length_cons]
    simp [Nat.add_assoc, Nat.add_comm 1]

/-- A piece stored at the start of the buffer and a zero behind it. -/
theorem put_terminated {piece line : List UInt8} (h : piece.length < line.length) :
    (put line 0 piece).set piece.length 0 = piece ++ 0 :: line.drop (piece.length + 1) := by
  rw [put_eq _ _ _ (by omega), List.take_zero, List.nil_append, Nat.zero_add,
    List.set_append_right _ _ (Nat.le_refl _), Nat.sub_self,
    List.drop_eq_getElem_cons h, List.set_cons_zero]

/-- The piece fits, with room for the zero. -/
theorem length_piece_lt {c : Call} (hc : c.Valid) (v : List UInt8) :
    (cut isNewline (c.maxlen - 1) v).1.length < c.line.length := by
  have hle : (cut isNewline (c.maxlen - 1) v).1.length ≤ c.maxlen - 1 := length_cut_le _ v
  have htwo := hc.two_le
  have hfits := hc.fits
  omega

/-- A version of `readline` that terminates what it stored at the end of file too. -/
def Terminates (atEof : AtEof) (n : ℕ) : Prop :=
  ∀ ptr line, (atEof n ptr line).ptr = ptr ∧ (atEof n ptr line).line = line.set ptr 0

theorem eofCount_terminates (n : ℕ) : Terminates eofCount n := fun _ _ => ⟨rfl, rfl⟩

theorem eofBreak_terminates {n : ℕ} (hn : n ≠ 1) : Terminates eofBreak n := by
  intro ptr line
  simp [eofBreak, hn]

/-- What a call leaves behind: the piece, a zero behind it, and the rest of the
buffer as it was. -/
theorem line_returns {atEof : AtEof} {c : Call} {p : List UInt8 × End}
    (hp : p.1.length < c.line.length) (h : p.2 = .eof → Terminates atEof (1 + p.1.length)) :
    (returns atEof c p).ptr = p.1.length ∧
      (returns atEof c p).line = p.1 ++ 0 :: c.line.drop (p.1.length + 1) := by
  rw [← put_terminated hp]
  cases hend : p.2 with
  | stop => simp [returns, finish, hend]
  | full => simp [returns, finish, hend]
  | eof =>
    have hterm := h hend (0 + p.1.length) (put c.line 0 p.1)
    rw [Nat.zero_add] at hterm
    simpa [returns, finish, hend] using hterm

/-- What a call stored is the piece. -/
theorem stored_returns {atEof : AtEof} {c : Call} {p : List UInt8 × End}
    (hp : p.1.length < c.line.length) (h : p.2 = .eof → Terminates atEof (1 + p.1.length)) :
    (returns atEof c p).stored = p.1 := by
  obtain ⟨hptr, hline⟩ := line_returns hp h
  rw [Ret.stored, hptr, hline, List.take_left]

/-- What a sequence of valid calls returns, seen through `f`, when `f` of one call
depends on the call and its piece in the way `g` says. -/
theorem map_returns {atEof : AtEof} {β : Type*} {f : Ret → β} {g : Call → List UInt8 × End → β}
    (h : ∀ c p, p.1.length < c.line.length → f (returns atEof c p) = g c p) :
    ∀ (cs : List Call) (v : List UInt8), (∀ c ∈ cs, c.Valid) →
    (List.zipWith (returns atEof) cs (cuts isNewline (limits cs) v)).map f
      = List.zipWith g cs (cuts isNewline (limits cs) v) := by
  intro cs
  induction cs with
  | nil => intro v _; rfl
  | cons c cs ih =>
    intro v hcs
    have hc := h c _ (length_piece_lt (hcs c List.mem_cons_self) v)
    have hrest := ih (v.drop (cut isNewline (c.maxlen - 1) v).1.length)
      fun c hc => hcs c (List.mem_cons_of_mem _ hc)
    rw [limits, List.map_cons, cuts_cons, List.zipWith_cons_cons, List.map_cons,
      List.zipWith_cons_cons, hc]
    exact congrArg _ hrest

/-- When it depends on the piece only. -/
theorem zipWith_cuts {β : Type*} (g : List UInt8 × End → β) : ∀ (cs : List Call) (v : List UInt8),
    List.zipWith (fun _ p => g p) cs (cuts isNewline (limits cs) v)
      = (cuts isNewline (limits cs) v).map g := by
  intro cs
  induction cs with
  | nil => intro v; rfl
  | cons c cs ih =>
    intro v
    rw [limits, List.map_cons, cuts_cons, List.zipWith_cons_cons, List.map_cons]
    exact congrArg _ (ih _)

end TcpIp.Readline
